import Tabletop.Proofs.AllOrNothing

/-!
# Whose words a roll is made of

A roll can be made again by anyone, but it can be revised by its owner only. So every word of a roll
in a tray was given by its owner in that place: first in a command that rolls, and then in commands
that revise (`rolls_own_words`). The latest of them that has a comment names the roll.
-/

namespace Tabletop.Chat

/-- The last comment that is not empty, if any. -/
def lastComment (comments : List String) : String := (comments.filter (· ≠ "")).getLastD ""

theorem lastComment_concat (comments : List String) (comment : String) :
    lastComment (comments ++ [comment]) =
      if comment.isEmpty then lastComment comments else comment := by
  by_cases hcomment : comment = ""
  · simp [lastComment, hcomment]
  · simp [lastComment, hcomment, String.isEmpty_iff]

theorem lastComment_singleton (comment : String) : lastComment [comment] = comment := by
  by_cases hcomment : comment = "" <;> simp [lastComment, hcomment]

theorem join_concat (texts : List String) (text : String) :
    String.join (texts ++ [text]) = String.join texts ++ text := by
  simp [String.join]

/-- The roll has its words from a command that rolls and from later ones that revise, all of them
given by its owner in its scope. -/
structure Lineage (scope : Int) (r : Roll Int) (c : Call) (revisions : List Call) : Prop where
  asked : ∃ request command, c.Asks request command ∧
    r.command = command ++ String.join (revisions.map Call.addition) ∧
    r.comment = lastComment (request.comment :: revisions.map Call.remark)
  revised : ∀ v ∈ revisions, v.command = .revise
  scope : ∀ v ∈ c :: revisions, v.scope = scope
  owner : ∀ v ∈ c :: revisions, v.user = r.owner

namespace Lineage

variable {scope : Int} {old r : Roll Int} {c v : Call} {revisions : List Call}

/-- A roll made again has the same words. -/
theorem of_order_eq (h : Lineage scope old c revisions) (hr : r.order = old.order) :
    Lineage scope r c revisions := by
  obtain ⟨hcommand, hcomment, howner⟩ := Order.mk.inj hr
  obtain ⟨request, command, hc, hold, hremark⟩ := h.asked
  refine ⟨⟨request, command, hc, ?_, ?_⟩, h.revised, h.scope, ?_⟩
  · rw [hcommand, hold]
  · rw [hcomment, hremark]
  · rw [howner]
    exact h.owner

theorem revise (h : Lineage scope old c revisions) (hv : v.command = .revise)
    (hscope : v.scope = scope) (howner : v.user = old.owner)
    (hr : r.order = ⟨old.command ++ v.addition,
      if v.remark.isEmpty then old.comment else v.remark, old.owner⟩) :
    Lineage scope r c (revisions ++ [v]) := by
  obtain ⟨hcommand, hcomment, howner'⟩ := Order.mk.inj hr
  obtain ⟨request, command, hc, hold, hremark⟩ := h.asked
  refine ⟨⟨request, command, hc, ?_, ?_⟩, ?_, ?_, ?_⟩
  · rw [hcommand, hold, List.map_append, List.map_singleton, join_concat, String.append_assoc]
  · rw [hcomment, hremark, List.map_append, List.map_singleton, ← List.cons_append, lastComment_concat]
  · exact List.forall_mem_append.2 ⟨h.revised, List.forall_mem_singleton.2 hv⟩
  · rw [← List.cons_append]
    exact List.forall_mem_append.2 ⟨h.scope, List.forall_mem_singleton.2 hscope⟩
  · rw [← List.cons_append, howner']
    exact List.forall_mem_append.2 ⟨h.owner, List.forall_mem_singleton.2 howner⟩

/-- A roll that a request asks for has no other words than the request. -/
theorem of_request {request : Request} {command : String} (hc : c.Asks request command)
    (hr : r.order = ⟨command, request.comment, c.user⟩) : Lineage c.scope r c [] := by
  obtain ⟨hcommand, hcomment, howner⟩ := Order.mk.inj hr
  refine ⟨⟨request, command, hc, ?_, ?_⟩, List.forall_mem_nil _, ?_, ?_⟩
  · rw [hcommand]
    exact String.append_empty.symm
  · rw [hcomment]
    exact (lastComment_singleton _).symm
  · exact List.forall_mem_singleton.2 rfl
  · exact List.forall_mem_singleton.2 howner.symm

end Lineage

/-- Every roll of a scope has a lineage within these calls. -/
def Descended (calls : List Call) (s : Session) : Prop :=
  ∀ scope, ∀ r ∈ s.rolls scope, ∃ c revisions, (c :: revisions).Sublist calls ∧
    Lineage scope r c revisions

variable {calls : List Call} {c : Call} {s : Session}

theorem Descended.concat (h : Descended calls s) (c : Call) : Descended (calls ++ [c]) s := by
  intro scope r hr
  obtain ⟨c₀, revisions, hsub, hlineage⟩ := h scope r hr
  exact ⟨c₀, revisions, hsub.trans (List.sublist_append_left _ _), hlineage⟩

/-- What a command stores next to rolls with a lineage has one, the command included. -/
theorem Descended.writes (h : Descended calls s) {new : List (Roll Int)}
    (hnew : c.Writes (s.rolls c.scope) new) :
    ∀ r ∈ new, ∃ c₀ revisions, (c₀ :: revisions).Sublist (calls ++ [c]) ∧
      Lineage c.scope r c₀ revisions := by
  intro r hr
  cases hnew with
  | request hc hlength hnew =>
    exact ⟨c, [], List.sublist_append_right calls [c], .of_request hc (hnew r hr)⟩
  | reroll hc hold hroll =>
    obtain rfl := List.mem_singleton.1 hr
    obtain ⟨c₀, revisions, hsub, hlineage⟩ := h.concat c _ _ (List.mem_of_getLast? hold)
    exact ⟨c₀, revisions, hsub, hlineage.of_order_eq hroll⟩
  | revise hc hold howner hroll =>
    -- the roll that is revised is the one whose owner was asked for, and it had a lineage
    obtain rfl := List.mem_singleton.1 hr
    obtain ⟨c₀, revisions, hsub, hlineage⟩ := h _ _ (List.mem_of_getLast? hold)
    exact ⟨c₀, revisions ++ [c], hsub.append (List.Sublist.refl [c]),
      hlineage.revise hc rfl howner hroll⟩
  | nothing => cases hr

theorem Descended.answer (h : Descended calls s) (hs : s.Fits) (escape : String → String) (c : Call) :
    Descended (calls ++ [c]) (s.answer escape c).2.toSession := by
  intro scope r hr
  rcases Session.mem_rolls_answer hs hr with hr | ⟨rfl, -, new, hwrites, hr⟩
  · exact h.concat c scope r hr
  · exact h.writes hwrites r hr

end Tabletop.Chat
