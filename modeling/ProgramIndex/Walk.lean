/- Depth-first walks. A script says, for each node, what a visit of it does: a list of steps, each
   of which reports an event or visits a node. A visit of a node that was seen before, or that is
   not among the given nodes, does nothing. The steps still to be done are one list, and a visit
   puts the node's script in front of it. `run_append` says that a list of steps is done in order:
   the second part starts with what the first part has seen. -/
namespace ProgramIndex

inductive Step (ν ε : Type) where
  | report (event : ε)
  | visit (node : ν)
deriving DecidableEq

namespace Walk
variable {ν ε : Type} [DecidableEq ν]

/-- How many of the nodes have not been seen. -/
def unseen (nodes seen : List ν) : Nat := nodes.countP fun v => decide (v ∉ seen)

theorem unseen_cons (v : ν) (nodes seen : List ν) :
    unseen (v :: nodes) seen = unseen nodes seen + if v ∈ seen then 0 else 1 := by
  by_cases h : v ∈ seen <;> simp [unseen, h]

theorem unseen_cons_le (v : ν) (nodes seen : List ν) : unseen nodes (v :: seen) ≤ unseen nodes seen :=
  List.countP_mono_left fun x _ hx => by simp_all

/-- Seeing one more node leaves fewer unseen. -/
theorem unseen_cons_lt {v : ν} {seen : List ν} (hseen : v ∉ seen) :
    ∀ {nodes : List ν}, v ∈ nodes → unseen nodes (v :: seen) < unseen nodes seen
  | [], h => by simp at h
  | w :: rest, h => by
    rw [unseen_cons, unseen_cons]
    by_cases hw : w = v
    · have hle := unseen_cons_le v rest seen
      simp [hw, hseen]
      omega
    · have ih := unseen_cons_lt hseen ((List.mem_cons.1 h).resolve_left fun heq => hw heq.symm)
      simp [hw]
      exact ih

/-- The events of a list of steps, in order, and the nodes that have been seen in the end. -/
def run (nodes : List ν) (script : ν → List (Step ν ε)) (steps : List (Step ν ε)) (seen : List ν) :
    List ε × List ν :=
  match steps with
  | [] => ([], seen)
  | .report event :: rest =>
    let (events, seen) := run nodes script rest seen
    (event :: events, seen)
  | .visit v :: rest =>
    if v ∈ nodes ∧ v ∉ seen then
      -- the node counts as seen before its script is done, so a cycle ends here
      run nodes script (script v ++ rest) (v :: seen)
    else
      run nodes script rest seen
termination_by (unseen nodes seen, steps.length)
decreasing_by
  · exact Prod.Lex.right _ (by simp)
  · next h => exact Prod.Lex.left _ _ (unseen_cons_lt h.2 h.1)
  · exact Prod.Lex.right _ (by simp)

/-- The events of a list of steps, with nothing seen before. -/
def events (nodes : List ν) (script : ν → List (Step ν ε)) (steps : List (Step ν ε)) : List ε :=
  (run nodes script steps []).1

theorem run_nil (nodes : List ν) (script : ν → List (Step ν ε)) (seen : List ν) :
    run nodes script [] seen = ([], seen) := by
  rw [run]

theorem run_report (nodes : List ν) (script : ν → List (Step ν ε)) (event : ε)
    (rest : List (Step ν ε)) (seen : List ν) :
    run nodes script (.report event :: rest) seen =
      (event :: (run nodes script rest seen).1, (run nodes script rest seen).2) := by
  rw [run]

theorem run_visit (nodes : List ν) (script : ν → List (Step ν ε)) (v : ν)
    (rest : List (Step ν ε)) (seen : List ν) :
    run nodes script (.visit v :: rest) seen =
      if v ∈ nodes ∧ v ∉ seen then run nodes script (script v ++ rest) (v :: seen)
      else run nodes script rest seen := by
  rw [run]

theorem run_append (nodes : List ν) (script : ν → List (Step ν ε)) (first second : List (Step ν ε))
    (seen : List ν) :
    run nodes script (first ++ second) seen =
      ((run nodes script first seen).1 ++ (run nodes script second (run nodes script first seen).2).1,
       (run nodes script second (run nodes script first seen).2).2) := by
  fun_induction run nodes script first seen with
  | case1 seen => simp
  | case2 seen event rest events seen' h ih => simp_all [run_report]
  | case3 seen v rest h ih => simp_all [run_visit]
  | case4 seen v rest h ih => simp_all [run_visit]

end Walk

end ProgramIndex
