import Tabletop.Proofs.Generations
import Tabletop.Proofs.Locality
import Tabletop.Proofs.RackRolls

/-!
# Scopes do not interfere

The trays of a rack take their faces from one supply. A `Visit` opens the tray of one scope and does one
thing with it. What becomes of the tray depends on the faces that are taken for it, and on no others
(`Deed.run_alone`), so that every tray of a rack is what it would be on its own: `Mirrors` says so of a
rack and the journal of the visits so far, and each visit keeps it (`Mirrors.visit`).
-/

namespace Tabletop

variable {Scope Owner α : Type}

theorem eraseDups_concat_of_mem [DecidableEq α] {l : List α} {a : α} (h : a ∈ l) :
    (l ++ [a]).eraseDups = l.eraseDups := by
  simp [List.eraseDups_append, List.cons_removeAll, h]

theorem eraseDups_concat_of_notMem [DecidableEq α] {l : List α} {a : α} (h : a ∉ l) :
    (l ++ [a]).eraseDups = l.eraseDups ++ [a] := by
  have hnew : l.contains a = false := by rwa [← Bool.not_eq_true, List.contains_iff_mem]
  rw [List.eraseDups_append, List.cons_removeAll, if_pos hnew, List.nil_removeAll]
  rfl

/-! ### The faces that are taken -/

/-- The faces that are gone from the front of a supply when another one is left. -/
def Faces.front (s s' : Faces) : List Int := s.coming.take (s'.used - s.used)

theorem Faces.Takes.front_eq {s s' : Faces} {block : List Int} (h : s.Takes block s') : s.front s' = block := by
  rw [front, h.used, Nat.add_sub_cancel_left, h.coming, List.take_left]

/-- On its own, with no faces but those that it takes, a computation comes to the same. -/
theorem Rolling.Local.alone {m : Rolling α} (h : m.Local) (s : Faces) : ∃ taken,
    s.Takes taken (m.on s).2 ∧ (m.on (.ofList taken)).1.toOption = (m.on s).1.toOption := by
  obtain ⟨faces, n⟩ := s
  rcases h faces with ⟨taken, rest, r, rfl, hends⟩ | hout
  · have halone := hends.on_append [] 0
    rw [List.append_nil] at halone
    rw [hends.on_append]
    exact ⟨taken, ⟨rfl, rfl⟩, by rw [Faces.ofList, halone]⟩
  · rw [hout.on_eq]
    exact ⟨faces, ⟨(List.append_nil faces).symm, rfl⟩, by rw [Faces.ofList, hout.on_eq]; rfl⟩

open Rolling Local

theorem Order.local_roll (o : Order Owner) : o.roll.Local := by
  rw [roll]
  split
  · exact .throw fun n h => by cases h
  · exact (local_evaluateText _ _).bind fun x => (of_refuses_reckoning x.2.refuses_toValue).bind fun _ => .pure _

namespace Tray

theorem local_add (t : Tray Owner) (o : Order Owner) : (t.add o).Local := o.local_roll.bind fun _ => .pure _

theorem local_addMany (t : Tray Owner) (o : Order Owner) (times : Nat) : (t.addMany o times).Local :=
  (Local.mapM fun o _ => o.local_roll).bind fun _ => .pure _

theorem refuses_latest (t : Tray Owner) : Refuses Error.sparesFaces t.latest := by
  rw [Tray.latest]
  split
  exacts [.ok _, .error rfl]

theorem refuses_rerollOrder (t : Tray Owner) : Refuses Error.sparesFaces t.rerollOrder :=
  t.refuses_latest.bind fun _ => .ok _

theorem refuses_revisionOrder [DecidableEq Owner] (t : Tray Owner) (o : Order Owner) :
    Refuses Error.sparesFaces (t.revisionOrder o) := by
  refine t.refuses_latest.bind fun old => ?_
  split
  exacts [.ok _, .error rfl]

theorem Call.local_answer [DecidableEq Owner] (t : Tray Owner) (c : Call Owner) : (c.answer t).Local := by
  cases c with
  | add o => exact (t.local_add o).bind fun _ => .pure _
  | addMany o times => exact (t.local_addMany o _).bind fun _ => .pure _
  | reroll => exact ((of_refuses t.refuses_rerollOrder).bind t.local_add).bind fun _ => .pure _
  | revise o => exact ((of_refuses (t.refuses_revisionOrder o)).bind t.local_add).bind fun _ => .pure _
  | latest => exact (of_refuses t.refuses_latest).bind fun _ => .pure _
  | rerollOrder => exact (of_refuses t.refuses_rerollOrder).bind fun _ => .pure _
  | revisionOrder o => exact (of_refuses (t.refuses_revisionOrder o)).bind fun _ => .pure _
  | length => exact .pure _

/-! ### One tray -/

/-- What can be done with a tray: a call, rolls stored that were made elsewhere, or a look at its rolls. -/
inductive Deed (Owner : Type) where
  | call (c : Call Owner)
  | store (rs : List (Roll Owner))
  | rolls

namespace Deed

variable [DecidableEq Owner]

def run (d : Deed Owner) (b : Table Owner) : Except Error (Answer Owner) × Table Owner :=
  match d with
  | call c => c.run b
  | store rs => (.ok (.rolls rs), { b with tray := b.tray.pushAll rs })
  | rolls => (.ok (.rolls b.tray.rolls), b)

theorem call_run (c : Call Owner) (b : Table Owner) :
    let outcome := (c.answer b.tray).on b.faces
    (c.run b).2.faces = outcome.2 ∧
      (c.run b).2.tray = ((outcome.1.toOption).map Prod.snd).getD b.tray := by
  rw [Call.run]
  rcases (c.answer b.tray).on b.faces with ⟨_ | ⟨a, t⟩, s⟩ <;> exact ⟨rfl, rfl⟩

/-- A deed takes faces off the front, and on no other faces than those it leaves the same tray. -/
theorem run_alone (d : Deed Owner) (b : Table Owner) : ∃ taken,
    b.faces.Takes taken (d.run b).2.faces ∧
      (d.run ⟨b.tray, .ofList taken⟩).2.tray = (d.run b).2.tray := by
  cases d with
  | call c =>
    obtain ⟨taken, htakes, halone⟩ := (Call.local_answer b.tray c).alone b.faces
    obtain ⟨hfaces, htray⟩ := call_run c b
    refine ⟨taken, hfaces ▸ htakes, ?_⟩
    change (c.run _).2.tray = (c.run b).2.tray
    rw [htray, (call_run c _).2, halone]
  | store rs => exact ⟨[], .refl _, rfl⟩
  | rolls => exact ⟨[], .refl _, rfl⟩

/-- No deed stores more rolls than there is room for. -/
theorem fits {n : Nat} (hn : 1 ≤ n) (d : Deed Owner) {b : Table Owner} (h : b.tray.Fits n) :
    (d.run b).2.tray.Fits n := by
  cases d with
  | call c =>
    change (c.run b).2.tray.Fits n
    rw [c.run_tray]
    exact h.pushAll hn _
  | store rs => exact h.pushAll hn rs
  | rolls => exact h

end Deed

/-- The tray after these deeds, each of them done with no faces but those beside it. -/
def alone [DecidableEq Owner] (t : Tray Owner) (deeds : List (Deed Owner × List Int)) : Tray Owner :=
  deeds.foldl (fun t (d, faces) => (d.run ⟨t, .ofList faces⟩).2.tray) t

theorem alone_concat [DecidableEq Owner] (t : Tray Owner) (deeds : List (Deed Owner × List Int)) (d : Deed Owner)
    (faces : List Int) : t.alone (deeds ++ [(d, faces)]) = (d.run ⟨t.alone deeds, .ofList faces⟩).2.tray := by
  rw [alone, List.foldl_append]
  rfl

end Tray

/-! ### One rack -/

namespace Rack

variable [DecidableEq Scope] {r r' : Rack Scope Owner} {scope other : Scope} {t : Tray Owner}

/-- The scopes that have a tray. -/
def scopes (r : Rack Scope Owner) : List Scope := r.trays.map Prod.fst

theorem tray?_eq_none_iff : r.tray? scope = none ↔ scope ∉ r.scopes := by
  simp only [tray?, List.lookup_eq_none_iff, scopes, List.mem_map, bne_iff_ne]
  constructor
  · rintro h ⟨p, hp, rfl⟩
    exact h p hp rfl
  · rintro h p hp rfl
    exact h ⟨p, hp, rfl⟩

theorem scopes_put (r : Rack Scope Owner) (scope : Scope) (t : Tray Owner) : (r.put scope t).scopes = r.scopes := by
  rw [scopes, put, List.map_map]
  rfl

/-- What is opened is the tray of the scope, or a new one that the rack has from then on. -/
theorem opened_ok (h : r.opened scope = .ok (t, r')) :
    (r.tray? scope = some t ∧ r' = r) ∨
      (r.tray? scope = none ∧ Tray.ofCapacity r.capacity = .ok t ∧
        r' = { r with trays := r.trays ++ [(scope, t)] }) := by
  rw [opened] at h
  split at h
  · cases h
    exact .inl ⟨‹_›, rfl⟩
  · obtain ⟨t', ht, h⟩ := ok_of_bind h
    cases h
    exact .inr ⟨‹_›, ht, rfl⟩

/-- A scope that is opened leaves the trays of all others alone. -/
theorem tray?_of_opened (h : r.opened scope = .ok (t, r')) (hother : other ≠ scope) :
    r'.tray? other = r.tray? other := by
  rcases opened_ok h with ⟨-, rfl⟩ | ⟨-, -, rfl⟩
  · rfl
  · rw [tray?, List.lookup_append, List.lookup_cons, beq_false_of_ne hother, List.lookup_nil, Option.or_none]
    rfl

end Rack

/-! ### Visits -/

section Visits

variable [DecidableEq Scope]

/-- A rack, and the faces that its trays share. -/
structure Room (Scope Owner : Type) where
  rack : Rack Scope Owner
  faces : Faces

/-- Something done with the tray of a scope. -/
structure Visit (Scope Owner : Type) where
  scope : Scope
  deed : Tray.Deed Owner

namespace Visit

variable [DecidableEq Owner]

/-- Opens the tray and does the deed. The tray stays opened if the deed fails. -/
def run (v : Visit Scope Owner) (room : Room Scope Owner) : Except Error (Tray.Answer Owner) × Room Scope Owner :=
  match room.rack.opened v.scope with
  | .error e => (.error e, room)
  | .ok (t, rack) =>
    let (answer, b) := v.deed.run ⟨t, room.faces⟩
    (answer, ⟨rack.put v.scope b.tray, b.faces⟩)

/-- The faces that the visit takes. -/
def taken (v : Visit Scope Owner) (room : Room Scope Owner) : List Int :=
  room.faces.front (v.run room).2.faces

theorem run_of_opened {v : Visit Scope Owner} {room : Room Scope Owner} {t : Tray Owner} {rack : Rack Scope Owner}
    (h : room.rack.opened v.scope = .ok (t, rack)) :
    let b := (v.deed.run ⟨t, room.faces⟩).2
    (v.run room).2 = ⟨rack.put v.scope b.tray, b.faces⟩ := by
  rw [run, h]

/-- A visit changes no tray but that of its scope, whatever becomes of the deed. -/
theorem tray?_of_ne (v : Visit Scope Owner) (room : Room Scope Owner) {other : Scope} (h : other ≠ v.scope) :
    (v.run room).2.rack.tray? other = room.rack.tray? other := by
  cases hopened : room.rack.opened v.scope with
  | error e => rw [run, hopened]
  | ok opened =>
    obtain ⟨t, rack⟩ := opened
    rw [run_of_opened hopened, Rack.tray?_put]
    simp only [if_neg h, Option.map_id']
    exact Rack.tray?_of_opened hopened h

/-- The faces of a visit come from the front of the supply. -/
theorem takes (v : Visit Scope Owner) (room : Room Scope Owner) :
    room.faces.Takes (v.taken room) (v.run room).2.faces := by
  cases hopened : room.rack.opened v.scope with
  | error e =>
    have hrun : (v.run room).2 = room := by rw [run, hopened]
    rw [taken, hrun, (Faces.Takes.refl room.faces).front_eq]
    exact .refl _
  | ok opened =>
    obtain ⟨t, rack⟩ := opened
    obtain ⟨block, htakes, -⟩ := v.deed.run_alone ⟨t, room.faces⟩
    rw [taken, run_of_opened hopened, htakes.front_eq]
    exact htakes

end Visit

/-! ### The journal of a run -/

/-- The deeds of one scope, each with the faces that it took. -/
def deedsOf (scope : Scope) (journal : List (Visit Scope Owner × List Int)) : List (Tray.Deed Owner × List Int) :=
  (journal.filter fun e => e.1.scope = scope).map fun e => (e.1.deed, e.2)

theorem deedsOf_eq_nil {scope : Scope} {journal : List (Visit Scope Owner × List Int)}
    (h : scope ∉ journal.map fun e => e.1.scope) : deedsOf scope journal = [] := by
  rw [deedsOf, List.map_eq_nil_iff, List.filter_eq_nil_iff]
  intro e he hscope
  exact h (List.mem_map.2 ⟨e, he, of_decide_eq_true hscope⟩)

/-- A visit is added to the deeds of its own scope only. -/
theorem deedsOf_concat (scope : Scope) (journal : List (Visit Scope Owner × List Int)) (v : Visit Scope Owner)
    (faces : List Int) : deedsOf scope (journal ++ [(v, faces)]) =
      deedsOf scope journal ++ if v.scope = scope then [(v.deed, faces)] else [] := by
  rw [deedsOf, List.filter_append, List.map_append, ← deedsOf, List.filter_singleton]
  by_cases h : v.scope = scope <;> simp [h]

variable [DecidableEq Owner]

/-- Visits one after the other. A failure does not stop the next. -/
def Room.after (room : Room Scope Owner) (vs : List (Visit Scope Owner)) : Room Scope Owner :=
  vs.foldl (fun room v => (v.run room).2) room

/-- The visits of a run, each with the faces that it took. -/
def Room.journal (room : Room Scope Owner) : List (Visit Scope Owner) → List (Visit Scope Owner × List Int)
  | [] => []
  | v :: vs => (v, v.taken room) :: Room.journal (v.run room).2 vs

theorem Room.journal_visits (room : Room Scope Owner) (vs : List (Visit Scope Owner)) :
    (room.journal vs).map Prod.fst = vs := by
  induction vs generalizing room with
  | nil => rfl
  | cons v vs ih => rw [journal, List.map_cons, ih]

/-- A run takes the faces of its visits one after the other. -/
theorem Room.takes (room : Room Scope Owner) (vs : List (Visit Scope Owner)) :
    room.faces.Takes ((room.journal vs).flatMap Prod.snd) (room.after vs).faces := by
  induction vs generalizing room with
  | nil => exact .refl _
  | cons v vs ih =>
    rw [journal, List.flatMap_cons]
    exact (v.takes room).append (ih (v.run room).2)

/-- Every tray of the rack is what a tray on its own would be after the deeds of its scope, and there is one
for each scope that was visited, in the order of the first visits. -/
structure Mirrors (n : Nat) (journal : List (Visit Scope Owner × List Int)) (rack : Rack Scope Owner) : Prop where
  fits : rack.Fits n
  scopes : rack.scopes = (journal.map fun e => e.1.scope).eraseDups
  tray : ∀ {scope t}, rack.tray? scope = some t → t = Tray.alone ⟨n, []⟩ (deedsOf scope journal)

namespace Mirrors

variable {n : Nat} {journal : List (Visit Scope Owner × List Int)} {room : Room Scope Owner}
  {rack rack' : Rack Scope Owner} {scope : Scope} {t : Tray Owner}

theorem ofCapacity (n : Nat) : Mirrors n [] (.ofCapacity n : Rack Scope Owner) :=
  ⟨Rack.fits_ofCapacity n, rfl, nofun⟩

theorem mem_scopes_iff (h : Mirrors n journal rack) : scope ∈ rack.scopes ↔ scope ∈ journal.map fun e => e.1.scope := by
  rw [h.scopes, List.mem_eraseDups]

/-- The tray that is opened has seen the deeds of its scope, and a new one is that of a new scope. -/
theorem opened (h : Mirrors n journal rack) (hn : 1 ≤ n) (hopened : rack.opened scope = .ok (t, rack')) :
    t = Tray.alone ⟨n, []⟩ (deedsOf scope journal) ∧
      rack'.scopes = ((journal.map fun e => e.1.scope) ++ [scope]).eraseDups := by
  rcases Rack.opened_ok hopened with ⟨htray, rfl⟩ | ⟨hnone, hnew, rfl⟩
  · have hold : scope ∈ rack'.scopes := by
      by_contra hnot
      rw [Rack.tray?_eq_none_iff.2 hnot] at htray
      cases htray
    rw [eraseDups_concat_of_mem (h.mem_scopes_iff.1 hold), ← h.scopes]
    exact ⟨h.tray htray, rfl⟩
  · have hnot := mt h.mem_scopes_iff.2 (Rack.tray?_eq_none_iff.1 hnone)
    rw [eraseDups_concat_of_notMem hnot, ← h.scopes, deedsOf_eq_nil hnot]
    rw [h.fits.capacity, Tray.ofCapacity_natCast hn] at hnew
    cases hnew
    exact ⟨rfl, List.map_append⟩

/-- One more visit, whatever becomes of its deed. -/
theorem visit (h : Mirrors n journal room.rack) (hn : 1 ≤ n) (v : Visit Scope Owner) :
    Mirrors n (journal ++ [(v, v.taken room)]) (v.run room).2.rack := by
  obtain ⟨t, rack, hopened, htray, hfits, -⟩ := h.fits.opened hn v.scope
  obtain ⟨ht, hscopes⟩ := h.opened hn hopened
  obtain ⟨block, htakes, halone⟩ := v.deed.run_alone ⟨t, room.faces⟩
  have hrun := Visit.run_of_opened hopened
  have htaken : v.taken room = block := by rw [Visit.taken, hrun, htakes.front_eq]
  refine ⟨?_, ?_, fun {scope t'} ht' => ?_⟩
  · rw [hrun]
    exact hfits.put (v.deed.fits hn (hfits.tray htray))
  · rw [hrun, Rack.scopes_put, hscopes, List.map_append]
    rfl
  · rw [deedsOf_concat]
    by_cases hscope : v.scope = scope
    · subst hscope
      rw [hrun, Rack.tray?_put_self htray] at ht'
      cases ht'
      rw [if_pos rfl, Tray.alone_concat, ← ht, htaken, halone]
    · rw [v.tray?_of_ne room (Ne.symm hscope)] at ht'
      rw [if_neg hscope, List.append_nil]
      exact h.tray ht'

theorem run (h : Mirrors n journal room.rack) (hn : 1 ≤ n) (vs : List (Visit Scope Owner)) :
    Mirrors n (journal ++ room.journal vs) (room.after vs).rack := by
  induction vs generalizing room journal with
  | nil => rwa [Room.journal, List.append_nil]
  | cons v vs ih =>
    rw [Room.journal, List.append_cons]
    exact ih (h.visit hn v)

end Mirrors

/-- Scopes do not interfere. After any visits the rack has a tray for each scope that was visited, in the
order of the first visits, and it is what a tray on its own would be after the visits of that scope, with
no faces for each but those that were taken for it. The faces are taken one visit after the other, and a
visit changes no tray but its own, in any room. -/
theorem Rack.trays_apart {c : Int} (hc : 1 ≤ c) (s : Faces) (vs : List (Visit Scope Owner)) :
    let start : Room Scope Owner := ⟨.ofCapacity c, s⟩
    ∃ lone : Tray Owner, Tray.ofCapacity c = .ok lone ∧
      (start.journal vs).map Prod.fst = vs ∧
      s.Takes ((start.journal vs).flatMap Prod.snd) (start.after vs).faces ∧
      (start.after vs).rack.scopes = (vs.map Visit.scope).eraseDups ∧
      (∀ scope ∈ vs.map Visit.scope,
        (start.after vs).rack.tray? scope = some (lone.alone (deedsOf scope (start.journal vs)))) ∧
      ∀ (room : Room Scope Owner) (v : Visit Scope Owner),
        room.faces.Takes (v.taken room) (v.run room).2.faces ∧
          ∀ other ≠ v.scope, (v.run room).2.rack.tray? other = room.rack.tray? other := by
  obtain ⟨n, rfl⟩ : ∃ n : Nat, c = n := ⟨c.toNat, by omega⟩
  have hn : 1 ≤ n := by omega
  intro start
  have hstart : Mirrors n [] start.rack := .ofCapacity n
  have hmirrors : Mirrors n (start.journal vs) (start.after vs).rack := hstart.run hn vs
  have hscopes : (start.after vs).rack.scopes = (vs.map Visit.scope).eraseDups := by
    rw [hmirrors.scopes, ← Function.comp_def Visit.scope Prod.fst, ← List.map_map, Room.journal_visits]
  refine ⟨⟨n, []⟩, Tray.ofCapacity_natCast hn, start.journal_visits vs, start.takes vs, hscopes, ?_,
    fun room v => ⟨v.takes room, fun other hother => v.tray?_of_ne room hother⟩⟩
  intro scope hscope
  cases htray : (start.after vs).rack.tray? scope with
  | none =>
    have hnot := Rack.tray?_eq_none_iff.1 htray
    rw [hscopes, List.mem_eraseDups] at hnot
    exact absurd hscope hnot
  | some t => rw [hmirrors.tray htray]

/-- The roll in the second scope fails, having taken a face, and the reroll in the first one takes the next. -/
theorem Rack.trays_apart_failure :
    let visits : List (Visit Nat Nat) :=
      [⟨1, .call (.add ⟨"d6", "", 7⟩)⟩, ⟨2, .call (.add ⟨"d6+", "", 7⟩)⟩, ⟨1, .call .reroll⟩]
    let start : Room Nat Nat := ⟨.ofCapacity 2, .ofList [3, 5, 2, 6]⟩
    (1 : Int) ≤ 2 ∧ (start.journal visits).map Prod.snd = [[3], [5], [2]] ∧
      (start.after visits).rack.scopes = [1, 2] ∧
      (start.after visits).rack.tray? 1 =
        some (Tray.alone ⟨2, []⟩ [(.call (.add ⟨"d6", "", 7⟩), [3]), (.call .reroll, [2])]) ∧
      (start.after visits).rack.tray? 2 = some (Tray.alone ⟨2, []⟩ [(.call (.add ⟨"d6+", "", 7⟩), [5])]) := by
  intro visits start
  obtain ⟨lone, hlone, hvisits, -, hscopes, htrays, -⟩ := trays_apart (show (1 : Int) ≤ 2 by decide)
    (.ofList [3, 5, 2, 6]) visits
  cases hlone
  have hfaces : (start.journal visits).map Prod.snd = [[3], [5], [2]] := by decide
  have hjournal : start.journal visits = visits.zip [[3], [5], [2]] := List.zip_of_prod hvisits hfaces
  have hfirst := htrays 1 (by decide)
  have hsecond := htrays 2 (by decide)
  rw [hjournal] at hfirst hsecond
  exact ⟨by decide, hfaces, hscopes, hfirst, hsecond⟩

end Visits

end Tabletop
