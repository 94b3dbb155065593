import Tabletop.Chat.Command
import Tabletop.Proofs.RackRolls

/-!
# Commands step by step

What the steps of a command come to, and a way to say what a command leaves behind (`Leaves`): one
statement for its good end and one for its failures, put together along the steps (`Leaves.bind`). Rolls
are stored one by one, which comes to putting back a tray that has them all (`on_storeAll`).
-/

namespace Tabletop.Chat

/-- The trays fit the rack that a session starts with. -/
def Session.Fits (s : Session) : Prop := s.trays.Fits trayCapacity

namespace Serving

variable {α β : Type} {x : Exchange}

theorem on_bind (m : Serving α) (f : α → Serving β) (x : Exchange) :
    on (m >>= f) x =
      match on m x with
      | (.ok a, x') => on (f a) x'
      | (.error e, x') => (.error e, x') := by
  rcases h : on m x with ⟨e | a, x'⟩
  · exact run_run_bind_of_error h f
  · exact run_run_bind_of_ok h f

theorem on_opened {scope : Int} {t : Tray Int} {trays : Trays}
    (h : x.trays.opened scope = .ok (t, trays)) :
    on (opened scope) x = (.ok t, { x with trays }) := by
  simp only [on, opened, ExceptT.run_mk, StateT.run, h]

theorem on_store {scope : Int} {t : Tray Int} (ht : x.trays.tray? scope = some t) (r : Roll Int) :
    on (store scope r) x = (.ok (), { x with trays := x.trays.put scope (t.push r) }) := by
  simp only [on, store, ExceptT.run_mk, StateT.run, ht]

/-- Storing rolls one by one comes to putting back a tray that has them all. -/
theorem on_storeAll (hx : x.Fits) {scope : Int} {t : Tray Int} (ht : x.trays.tray? scope = some t)
    (rs : List (Roll Int)) :
    on (rs.forM (store scope)) x =
      (.ok (), { x with trays := x.trays.put scope (t.pushAll rs) }) := by
  induction rs generalizing x t with
  | nil =>
    -- with nothing to store the tray goes back as it was: here each scope must have one tray only
    have hput : x.trays.put scope t = x.trays := Rack.Fits.put_self hx ht
    change _ = (Except.ok (), { x with trays := x.trays.put scope t })
    rw [hput]
    rfl
  | cons r rs ih =>
    have hpush : (t.push r).Fits trayCapacity := (Rack.Fits.tray hx ht).pushAll (by decide) [r]
    have hput := ih (x := { x with trays := x.trays.put scope (t.push r) })
      (Rack.Fits.put hx hpush) (Rack.tray?_put_self ht)
    rw [Rack.put_put] at hput
    rw [List.forM_eq_forM, List.forM_cons, on_bind, on_store ht]
    exact hput

/-! ### What is left behind -/

/-- If the computation ends well it leaves what `ok` says, and if it fails what `bad` says. -/
def Leaves (m : Serving α) (x : Exchange) (ok : α → Exchange → Prop) (bad : Failure → Exchange → Prop) : Prop :=
  match m.on x with
  | (.ok a, x') => ok a x'
  | (.error f, x') => bad f x'

variable {m : Serving α} {P P' : α → Exchange → Prop} {Q : β → Exchange → Prop}
  {bad bad' : Failure → Exchange → Prop}

theorem Leaves.bind {f : α → Serving β} (hm : m.Leaves x P bad)
    (hf : ∀ a x', P a x' → (f a).Leaves x' Q bad) : (m >>= f).Leaves x Q bad := by
  rw [Leaves] at hm ⊢
  rw [on_bind]
  rcases hon : m.on x with ⟨e | a, x'⟩
  · rw [hon] at hm
    exact hm
  · rw [hon] at hm
    exact hf a x' hm

theorem Leaves.mono (hm : m.Leaves x P bad) (hP : ∀ a x', P a x' → P' a x')
    (hbad : ∀ f x', bad f x' → bad' f x') : m.Leaves x P' bad' := by
  rw [Leaves] at hm ⊢
  split at hm
  · exact hP _ _ hm
  · exact hbad _ _ hm

theorem leaves_throw {f : Failure} (h : bad f x) : (throw f : Serving α).Leaves x P bad := h

theorem leaves_check {r : Except Error α} (hok : ∀ a, r = .ok a → P a x) (hbad : ∀ e, bad (.error e) x) :
    (check r).Leaves x P bad := by
  cases r with
  | error e => exact hbad e
  | ok a => exact hok a rfl

theorem leaves_reply {text : String} {P : Unit → Exchange → Prop}
    (h : P () { x with sent := x.sent ++ [shortened text] }) : (reply text).Leaves x P bad := h

theorem on_tryCatch (m : Serving α) (handler : Failure → Serving α) (x : Exchange) :
    on (tryCatch m handler) x =
      match on m x with
      | (.ok a, x') => (.ok a, x')
      | (.error f, x') => on (handler f) x' := by
  rw [on, ExceptT.run_tryCatch, StateT.run_bind, on]
  rcases StateT.run (ExceptT.run m) x with ⟨f | a, x'⟩ <;> rfl

/-- A failure is handled where it left off. -/
theorem Leaves.handle {handler : Failure → Serving α} (hm : m.Leaves x P bad)
    (hhandler : ∀ f x', bad f x' → (handler f).Leaves x' P bad') : (tryCatch m handler).Leaves x P bad' := by
  rw [Leaves] at hm ⊢
  rw [on_tryCatch]
  rcases hon : m.on x with ⟨f | a, x'⟩
  · rw [hon] at hm
    exact hhandler f x' hm
  · rw [hon] at hm
    exact hm

end Serving

end Tabletop.Chat
