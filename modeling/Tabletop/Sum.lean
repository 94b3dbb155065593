/-!
# Sums of whole numbers
-/

namespace Tabletop

def sum : List Int → Int
  | [] => 0
  | n :: ns => n + sum ns

@[simp] theorem sum_nil : sum [] = 0 := rfl

@[simp] theorem sum_cons (n : Int) (ns : List Int) : sum (n :: ns) = n + sum ns := rfl

@[simp] theorem sum_append (ns ms : List Int) : sum (ns ++ ms) = sum ns + sum ms := by
  induction ns with
  | nil => simp
  | cons n ns ih => simp [ih, Int.add_assoc]

end Tabletop
