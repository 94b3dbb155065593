import Tabletop.Proofs.Requests
import Tabletop.Proofs.Serving
import Tabletop.Proofs.Yields
import Tabletop.Text.Markdown

/-!
# Commands are all or nothing

A command that fails keeps the rolls of all scopes. A command that does not stores its rolls in the
tray of its own scope, all of them, and the tray forgets no more than it must; which rolls these are is
said by `Call.Writes`. Both follow from what the commands leave step by step (`Call.body_leaves`), which
also says that a message is sent at the very end, and none before a failure. So every command is told its
end by one message, except one that the player may not use (`refused_unsent`).
-/

namespace Tabletop

open Text

theorem Request.times_le {text : String} {request : Request} (h : Request.parse text = .ok request) :
    request.times ≤ trayCapacity := by
  obtain ⟨command, hsplit, -⟩ := Request.parse_ok_iff.1 h
  exact (Request.splitRepeat_ok hsplit).2.1

/-- The roll is what its order comes to on some faces. -/
def Roll.Made {Owner : Type} (r : Roll Owner) : Prop := ∃ s s', r.order.roll.on s = (.ok r, s')

theorem Order.rollMany_yields {Owner : Type} (order : Order Owner) (times : Nat) :
    (order.rollMany times).Yields fun rs => rs.length = times ∧ ∀ r ∈ rs, r.order = order ∧ r.Made := by
  intro s rs s' h
  have hlength := Rolling.Yields.length_mapM _ _ h
  rw [List.length_replicate] at hlength
  have hmade : (order.rollMany times).Yields fun rs => ∀ r ∈ rs, r.order = order ∧ r.Made := by
    refine .mapM fun o ho s r s' hr => ?_
    obtain rfl := List.eq_of_mem_replicate ho
    have horder := Tray.order_of_roll hr
    exact ⟨horder, s, s', horder ▸ hr⟩
  exact ⟨hlength, hmade h⟩

namespace Chat

/-! ### What commands ask for -/

namespace Call

/-- The text of a command that rolls, and the system that it is for. -/
def request? (c : Call) : Option (String × Option GameSystem) :=
  match c.command with
  | .roll | .vroll => some (c.text, none)
  | .shorthand .storyShaper => some (if c.text.isEmpty then "+0" else c.text, some .storyShaper)
  | .shorthand system => some (c.text, some system)
  | .reroll | .revise | .history | .calculate => none

/-- The call gives a request to roll, whose command is this in dice notation. -/
def Asks (c : Call) (request : Request) (command : String) : Prop :=
  ∃ text system, c.request? = some (text, system) ∧ Request.parse text = .ok request ∧
    inNotation system request.command = .ok command

/-- The player may not use the command. -/
def isRefused (c : Call) : Bool :=
  match c.obstacle with
  | some .check => true
  | _ => false

/-- The rolls that a command stores next to those that are there. -/
inductive Writes (c : Call) (rolls : List (Roll Int)) : List (Roll Int) → Prop
  | request {request : Request} {command : String} {new : List (Roll Int)}
      (hc : c.Asks request command) (hlength : new.length = request.times)
      (hnew : ∀ r ∈ new, r.order = ⟨command, request.comment, c.user⟩) : Writes c rolls new
  | reroll {old r : Roll Int} (hc : c.command = .reroll) (hold : rolls.getLast? = some old)
      (hr : r.order = old.order) : Writes c rolls [r]
  | revise {old r : Roll Int} (hc : c.command = .revise) (hold : rolls.getLast? = some old)
      (howner : c.user = old.owner)
      (hr : r.order = ⟨old.command ++ c.addition,
        if c.remark.isEmpty then old.comment else c.remark, old.owner⟩) : Writes c rolls [r]
  | nothing (hc : c.command = .history ∨ c.command = .calculate) : Writes c rolls []

/-- What a command stores has room in a tray: a request asks for no more rolls than that. -/
theorem Writes.length_le {c : Call} {rolls new : List (Roll Int)} (h : c.Writes rolls new) :
    new.length ≤ trayCapacity := by
  cases h with
  | @request request command new hc hlength hnew =>
    obtain ⟨text, system, -, hparse, -⟩ := hc
    rw [hlength]
    exact Request.times_le hparse
  | reroll => exact (by decide : 1 ≤ trayCapacity)
  | revise => exact (by decide : 1 ≤ trayCapacity)
  | nothing => exact Nat.zero_le _

end Call

/-! ### What commands leave -/

namespace Session

def rolls (s : Session) (scope : Int) : List (Roll Int) := s.trays.rolls scope

structure Kept (s s' : Session) : Prop where
  fits : s'.Fits
  rolls : ∀ scope, s'.rolls scope = s.rolls scope

/-- New rolls were made and stored in the tray of a scope, which forgot as many as it had to. -/
structure Stored (s : Session) (scope : Int) (new : List (Roll Int)) (s' : Session) : Prop where
  fits : s'.Fits
  made : ∀ r ∈ new, r.Made
  here : s'.rolls scope = (s.rolls scope ++ new).rtake trayCapacity
  elsewhere : ∀ other, other ≠ scope → s'.rolls other = s.rolls other

variable {s s' s'' : Session} {scope : Int} {new : List (Roll Int)}

theorem Fits.kept (h : s.Fits) : s.Kept s := ⟨h, fun _ => rfl⟩

theorem Fits.length_rolls (h : s.Fits) (scope : Int) : (s.rolls scope).length ≤ trayCapacity := by
  rw [rolls, Rack.rolls]
  cases ht : s.trays.tray? scope with
  | none => exact Nat.zero_le _
  | some t => exact (Rack.Fits.tray h ht).length_le

theorem Kept.stored (h : s.Kept s') (h' : s'.Stored scope new s'') : s.Stored scope new s'' where
  fits := h'.fits
  made := h'.made
  here := by rw [h'.here, h.rolls]
  elsewhere := fun other hother => (h'.elsewhere other hother).trans (h.rolls other)

/-- To keep all rolls is to store none. -/
theorem Kept.stored_nil (hs : s.Fits) (h : s.Kept s') (scope : Int) : s.Stored scope [] s' where
  fits := h.fits
  made := List.forall_mem_nil _
  here := by rw [List.append_nil, Tray.rtake_of_length_le (hs.length_rolls scope), h.rolls]
  elsewhere := fun other _ => h.rolls other

theorem Fits.stored (hs : s.Fits) {t : Tray Int} (ht : s.trays.tray? scope = some t)
    (hnew : ∀ r ∈ new, r.Made) :
    s.Stored scope new { s with trays := s.trays.put scope (t.pushAll new) } where
  fits := Rack.Fits.put hs ((Rack.Fits.tray hs ht).pushAll (by decide) new)
  made := hnew
  here := by
    rw [rolls, rolls, Rack.rolls_put_self ht, Rack.rolls_of_tray? ht]
    exact (Rack.Fits.tray hs ht).pushAll_rolls (by decide) new
  elsewhere := fun _ hother => Rack.rolls_put_of_ne hother

end Session

/-- All rolls are kept, and no message was sent. -/
structure Exchange.Silent (x x' : Exchange) : Prop where
  kept : x.Kept x'.toSession
  sent : x'.sent = x.sent

def Failure.isRefusal : Failure → Bool
  | refused => true
  | _ => false

/-- The command failed on its way, and the player is still to be told. -/
structure Exchange.Breaks (x : Exchange) (f : Failure) (x' : Exchange) : Prop extends x.Silent x' where
  told : f.isRefusal = false

/-- The command stored what it writes, and sent one message. -/
structure Call.Done (c : Call) (x x' : Exchange) : Prop where
  stored : ∃ new, x.Stored c.scope new x'.toSession ∧ c.Writes (x.rolls c.scope) new
  sent : ∃ text, x'.sent = x.sent ++ [text]

theorem Exchange.Silent.refl {x : Exchange} (hx : x.Fits) : x.Silent x := ⟨hx.kept, rfl⟩

namespace Serving

variable {α : Type} {x₀ x : Exchange}

/-- A check either fails or leaves everything as it is. -/
theorem leaves_check_silent (hx : x₀.Silent x) (r : Except Error α) :
    (check r).Leaves x (fun a x' => r = .ok a ∧ x' = x) x₀.Breaks :=
  leaves_check (fun _ ha => ⟨ha, rfl⟩) fun _ => ⟨hx, rfl⟩

/-- A worker takes faces, and what it answers is what the work yields. -/
theorem leaves_work {R : α → Prop} {m : Rolling α} (hm : m.Yields R) (failure : Option Error)
    (hx : x₀.Silent x) :
    (work failure m).Leaves x (fun a x' => R a ∧ x₀.Silent x' ∧ x'.trays = x.trays) x₀.Breaks := by
  cases failure with
  | some e => exact ⟨hx, rfl⟩
  | none =>
    have hwork : (work none m).on x = ((m.on x.faces).1.mapError .error, { x with faces := (m.on x.faces).2 }) := rfl
    have hfaces (faces : Faces) : x₀.Silent { x with faces } := ⟨⟨hx.kept.fits, hx.kept.rolls⟩, hx.sent⟩
    rw [Leaves, hwork]
    rcases hon : m.on x.faces with ⟨e | a, faces⟩
    · exact ⟨hfaces faces, rfl⟩
    · exact ⟨hm hon, hfaces faces, rfl⟩

theorem leaves_opened (hx : x.Fits) (scope : Int) :
    (opened scope).Leaves x (fun t x' => x.Silent x' ∧ x'.trays.tray? scope = some t) x.Breaks := by
  obtain ⟨t, trays, hopened, ht, hfits, hrolls⟩ := Rack.Fits.opened hx (by decide) scope
  rw [Leaves, on_opened hopened]
  exact ⟨⟨⟨hfits, hrolls⟩, rfl⟩, ht⟩

end Serving

open Serving

namespace Call

variable {escape : String → String} {c : Call} {x₀ x : Exchange} {t : Tray Int}

/-- Either all rolls are made and stored, or none is. -/
theorem rollInto_leaves (hx : x₀.Silent x) (ht : x.trays.tray? c.scope = some t) (order : Order Int)
    (times : Nat) :
    (c.rollInto order times).Leaves x
      (fun rs x' => x₀.Stored c.scope rs x'.toSession ∧ x'.sent = x₀.sent ∧
        rs.length = times ∧ ∀ r ∈ rs, r.order = order) x₀.Breaks := by
  refine (leaves_work (order.rollMany_yields times) c.workerFailure hx).bind fun rs x' h => ?_
  obtain ⟨⟨hlength, hrs⟩, hsilent, htrays⟩ := h
  rw [← htrays] at ht
  rw [Leaves, on_bind, on_storeAll hsilent.kept.fits ht]
  exact ⟨hsilent.kept.stored (hsilent.kept.fits.stored ht fun r hr => (hrs r hr).2), hsilent.sent, hlength,
    fun r hr => (hrs r hr).1⟩

/-- A message at the end of a command. -/
theorem reply_leaves (hstored : ∃ new, x₀.Stored c.scope new x.toSession ∧ c.Writes (x₀.rolls c.scope) new)
    (hsent : x.sent = x₀.sent) (text : String) {bad : Failure → Exchange → Prop} :
    (reply text).Leaves x (fun _ x' => c.Done x₀ x') bad :=
  leaves_reply ⟨hstored, shortened text, by rw [hsent]⟩

theorem rollRequest_leaves (hx : x.Fits) {text : String} {system : Option GameSystem}
    (hc : c.request? = some (text, system)) (verbose : Bool) :
    (c.rollRequest escape text system verbose).Leaves x (fun _ x' => c.Done x x') x.Breaks := by
  have hsilent := Exchange.Silent.refl hx
  refine (leaves_check_silent hsilent _).bind fun request x' h => ?_
  obtain ⟨hrequest, rfl⟩ := h
  refine (leaves_check_silent hsilent _).bind fun command x' h => ?_
  obtain ⟨hcommand, rfl⟩ := h
  refine (leaves_opened hx c.scope).bind fun t x₁ h => ?_
  obtain ⟨hopened, ht⟩ := h
  refine (rollInto_leaves hopened ht _ _).bind fun rs x₂ h => ?_
  obtain ⟨hstored, hsent, hlength, hrs⟩ := h
  exact reply_leaves ⟨rs, hstored, .request ⟨text, system, hc, hrequest, hcommand⟩ hlength hrs⟩ hsent _

/-- A single roll, whose order hangs on the tray. -/
theorem rollFrom_leaves (hx : x.Fits) {order : Tray Int → Except Error (Order Int)}
    (hwrites : ∀ t o, order t = .ok o → ∀ roll : Roll Int, roll.order = o → c.Writes t.rolls [roll]) :
    (c.rollFrom escape order).Leaves x (fun _ x' => c.Done x x') x.Breaks := by
  refine (leaves_opened hx c.scope).bind fun t x₁ h => ?_
  obtain ⟨hopened, ht⟩ := h
  have hrolls : x.rolls c.scope = t.rolls :=
    (hopened.kept.rolls c.scope).symm.trans (Rack.rolls_of_tray? ht)
  refine (leaves_check_silent hopened _).bind fun o x' h => ?_
  obtain ⟨horder, rfl⟩ := h
  refine (rollInto_leaves hopened ht o 1).bind fun rs x₂ h => ?_
  obtain ⟨hstored, hsent, hlength, hrs⟩ := h
  obtain ⟨roll, rfl⟩ := List.length_eq_one_iff.1 hlength
  refine reply_leaves ⟨[roll], hstored, ?_⟩ hsent _
  rw [hrolls]
  exact hwrites t o horder roll (hrs roll List.mem_cons_self)

/-- Once a command runs, it either fails and keeps all rolls, or stores what it writes and then sends a
message. -/
theorem body_leaves (hx : x.Fits) (c : Call) :
    (c.body escape).Leaves x (fun _ x' => c.Done x x') x.Breaks := by
  rw [body]
  split
  · exact rollRequest_leaves hx (by rw [request?, ‹c.command = _›]) false
  · exact rollRequest_leaves hx (by rw [request?, ‹c.command = _›]) true
  · refine rollFrom_leaves hx fun t o horder roll hroll => ?_
    obtain ⟨old, hold, rfl⟩ := Tray.rerollOrder_ok horder
    exact .reroll ‹_› hold hroll
  · refine rollFrom_leaves hx fun t o horder roll hroll => ?_
    obtain ⟨old, hold, howner, rfl⟩ := Tray.revisionOrder_ok horder
    exact .revise ‹_› hold howner hroll
  · refine (leaves_opened hx c.scope).bind fun t x' h => ?_
    have hstored : ∃ new, x.Stored c.scope new x'.toSession ∧ c.Writes (x.rolls c.scope) new :=
      ⟨[], h.1.kept.stored_nil hx c.scope, .nothing (.inl ‹_›)⟩
    split
    · exact reply_leaves hstored h.1.sent _
    · exact reply_leaves hstored h.1.sent _
  · refine (leaves_work (.any _) c.workerFailure (.refl hx)).bind fun answer x' h => ?_
    obtain ⟨-, hsilent, -⟩ := h
    exact reply_leaves ⟨[], hsilent.kept.stored_nil hx c.scope, .nothing (.inr ‹_›)⟩ hsilent.sent _
  · exact rollRequest_leaves hx (by rw [request?, ‹c.command = _›]) false
  · rename_i system hother hc
    refine rollRequest_leaves hx ?_ false
    rw [request?, hc]
    cases system with
    | storyShaper => exact absurd rfl hother
    | _ => rfl

/-- The player who may not use a command is refused, and no one else is. -/
theorem run_leaves (hx : x.Fits) (c : Call) :
    (c.run escape).Leaves x (fun _ x' => c.Done x x' ∧ c.isRefused = false)
      fun f x' => x.Silent x' ∧ f.isRefusal = c.isRefused := by
  have hbody : c.isRefused = false → (c.body escape).Leaves x (fun _ x' => c.Done x x' ∧ c.isRefused = false)
      fun f x' => x.Silent x' ∧ f.isRefusal = c.isRefused := by
    intro hc
    rw [hc]
    exact (c.body_leaves hx).mono (fun _ _ h => ⟨h, rfl⟩) fun _ _ h => ⟨h.toSilent, h.told⟩
  rcases ho : c.obstacle with _ | (_ | _ | e)
  · rw [run, ho]
    exact hbody (by rw [isRefused, ho])
  · rw [run, ho]
    exact leaves_throw ⟨.refl hx, by rw [isRefused, ho]; rfl⟩
  · rw [run, ho]
    exact leaves_throw ⟨.refl hx, by rw [isRefused, ho]; rfl⟩
  · rw [run, ho]
    exact hbody (by rw [isRefused, ho])

/-- A failure is told by one message, unless it is a refusal. -/
theorem apologize_leaves (c : Call) (f : Failure) (x : Exchange) :
    (do c.apologize f; throw f : Serving Unit).Leaves x (fun _ _ => False) fun _ x' =>
      x'.toSession = x.toSession ∧
        ∃ texts, x'.sent = x.sent ++ texts ∧ texts.length = if f.isRefusal then 0 else 1 := by
  cases f with
  | refused => exact ⟨rfl, [], (List.append_nil _).symm, rfl⟩
  | missing => exact ⟨rfl, [_], rfl, rfl⟩
  | error e => exact ⟨rfl, [_], rfl, rfl⟩

/-- A command that is served keeps all rolls if it fails, and stores what it writes if it does not. -/
theorem serve_leaves (hx : x.Fits) (c : Call) :
    (c.serve escape).Leaves x (fun _ x' => c.Done x x' ∧ c.isRefused = false) fun _ x' =>
      x.Kept x'.toSession ∧
        ∃ texts, x'.sent = x.sent ++ texts ∧ texts.length = if c.isRefused then 0 else 1 := by
  refine (c.run_leaves hx).handle fun f x' h => ?_
  obtain ⟨hsilent, hrefusal⟩ := h
  refine (c.apologize_leaves f x').mono (fun _ _ h => h.elim) fun _ x'' h => ?_
  obtain ⟨hsession, texts, hsent, hlength⟩ := h
  rw [hsession, hsent, hsilent.sent, ← hrefusal]
  exact ⟨hsilent.kept, texts, rfl, hlength⟩

end Call

namespace Session

variable {escape : String → String} {s : Session}

/-- A command that does not fail has stored what it writes, and any other has kept all rolls. -/
theorem answer_spec (hs : s.Fits) (escape : String → String) (c : Call) :
    match s.answer escape c with
    | (.ok _, x) => ∃ new, s.Stored c.scope new x.toSession ∧ c.Writes (s.rolls c.scope) new
    | (.error _, x) => s.Kept x.toSession := by
  have hserve : (c.serve escape).Leaves ⟨s, []⟩ _ _ := c.serve_leaves hs
  rw [Serving.Leaves] at hserve
  rw [answer]
  split at hserve
  · rename_i h
    rw [h]
    exact hserve.1.stored
  · rename_i h
    rw [h]
    exact hserve.1

theorem length_sent (hs : s.Fits) (escape : String → String) (c : Call) :
    (s.answer escape c).2.sent.length = if c.isRefused then 0 else 1 := by
  have hserve : (c.serve escape).Leaves ⟨s, []⟩ _ _ := c.serve_leaves hs
  rw [Serving.Leaves] at hserve
  rw [answer]
  split at hserve
  · rename_i h
    obtain ⟨⟨-, text, hsent⟩, hrefused⟩ := hserve
    rw [h, hrefused, hsent]
    rfl
  · rename_i h
    obtain ⟨-, texts, hsent, hlength⟩ := hserve
    rw [h, hsent, List.nil_append, hlength]

theorem answer_kept_or_stored (hs : s.Fits) (escape : String → String) (c : Call) :
    s.Kept (s.answer escape c).2.toSession ∨
      ∃ new, s.Stored c.scope new (s.answer escape c).2.toSession ∧ c.Writes (s.rolls c.scope) new := by
  have hspec := answer_spec hs escape c
  split at hspec
  · rename_i h
    rw [h]
    exact .inr hspec
  · rename_i h
    rw [h]
    exact .inl hspec

/-- The session after commands, one after the other. A failure does not stop the next. -/
def after (escape : String → String) (s : Session) (calls : List Call) : Session :=
  calls.foldl (fun s c => (s.answer escape c).2.toSession) s

theorem after_concat (escape : String → String) (s : Session) (calls : List Call) (c : Call) :
    s.after escape (calls ++ [c]) = ((s.after escape calls).answer escape c).2.toSession := by
  rw [after, List.foldl_append]
  rfl

theorem fits_after (escape : String → String) (faces : List Int) (calls : List Call) :
    ((start faces).after escape calls).Fits := by
  induction calls using List.reverseRecOn with
  | nil => exact Rack.fits_ofCapacity trayCapacity
  | append_singleton calls c ih =>
    rw [after_concat]
    rcases answer_kept_or_stored ih escape c with hkept | ⟨new, hstored, -⟩
    · exact hkept.fits
    · exact hstored.fits

/-- A roll that a scope has after a command was there before it, or the command wrote it. -/
theorem mem_rolls_answer (hs : s.Fits) {escape : String → String} {c : Call} {scope : Int} {r : Roll Int}
    (hr : r ∈ (s.answer escape c).2.rolls scope) :
    r ∈ s.rolls scope ∨ scope = c.scope ∧ r.Made ∧ ∃ new, c.Writes (s.rolls c.scope) new ∧ r ∈ new := by
  rcases answer_kept_or_stored hs escape c with hkept | ⟨new, hstored, hwrites⟩
  · rw [hkept.rolls] at hr
    exact .inl hr
  · by_cases hscope : scope = c.scope
    · subst hscope
      rw [hstored.here] at hr
      rcases List.mem_append.1 (List.mem_of_mem_drop hr) with hr | hr
      · exact .inl hr
      · exact .inr ⟨rfl, hstored.made r hr, new, hwrites, hr⟩
    · rw [hstored.elsewhere scope hscope] at hr
      exact .inl hr

/-- Every stored roll is what its order came to on some faces. -/
theorem made_after (escape : String → String) (faces : List Int) (calls : List Call) (scope : Int) :
    ∀ r ∈ ((start faces).after escape calls).rolls scope, r.Made := by
  induction calls using List.reverseRecOn with
  | nil => exact List.forall_mem_nil _
  | append_singleton calls c ih =>
    rw [after_concat]
    intro r hr
    rcases mem_rolls_answer (fits_after escape faces calls) hr with hr | ⟨-, hmade, -⟩
    · exact ih r hr
    · exact hmade

/-- After any commands, the next one stores all its rolls in the tray of its scope, where none of them
pushes another one out, or fails and changes no roll. Whatever becomes of it, it sends one message, unless
the player may not use it. -/
theorem answer_all_or_nothing (escape : String → String) (faces : List Int) (calls : List Call) (c : Call) :
    let s := (start faces).after escape calls
    (match s.answer escape c with
      | (.ok _, x) => ∃ new, s.Stored c.scope new x.toSession ∧ c.Writes (s.rolls c.scope) new ∧
          new <:+ x.rolls c.scope
      | (.error _, x) => ∀ scope, x.rolls scope = s.rolls scope) ∧
    (s.answer escape c).2.sent.length = if c.isRefused then 0 else 1 := by
  intro s
  have hs : s.Fits := fits_after escape faces calls
  refine ⟨?_, length_sent hs escape c⟩
  have hspec := answer_spec hs escape c
  rcases hend : s.answer escape c with ⟨f | _, x⟩
  · rw [hend] at hspec
    exact hspec.rolls
  · rw [hend] at hspec
    obtain ⟨new, hstored, hwrites⟩ := hspec
    have hsuffix : new <:+ x.rolls c.scope := by
      rw [hstored.here]
      exact Tray.suffix_rtake_append hwrites.length_le
    exact ⟨new, hstored, hwrites, hsuffix⟩

/-- A command that the player may not use is not answered at all. -/
theorem refused_unsent :
    ((start []).answer Text.escape ⟨.history, "", 1, "Ann", none, 1, some .check⟩).2.sent.length ≠ 1 := by
  decide

end Session

end Chat

end Tabletop
