import Mathlib.Logic.Relation
import ProgramIndex.Walk

/- What a depth-first walk visits, and in which order. A walk enters a node when it comes to it for the
   first time (`Enters`), and a node leads to those that its script visits (`Leads`). A walk enters what
   its steps reach and has not been seen before, nothing else, and leaves no edge of an entered node
   unexplored (`Enters.reaches`, `Enters.mem_seen_of_leads`); with nothing seen before it enters exactly what
   its steps reach (`enters_iff_reaches`). It reports each script as often as it enters the node, that
   is at most once (`count_events`), and nothing else (`report_of_mem_events`); an event that announces one
   node is reported exactly if the walk enters that node (`Announces.mem_events_iff`). Of a kind of events
   that only one node's script reports, a walk reports what that script does, in its order, or nothing
   (`filterMap_run_of_own`). A node whose script ends with a report of its own is reported after the nodes
   that it leads to, unless these lead back to it (`Enters.precedes_of_leads`). Between the events before an
   entered node and those after it stand the events of its script, and nothing else (`Enters.exists_visit`).
   All of it is proved by induction over whole visits (`visit_induction`). -/
namespace ProgramIndex.Walk

/-! What steps report themselves. -/

section Reported
variable {ν ε κ : Type}

/-- What some steps report themselves, of the events of one kind. -/
def reported (kind? : ε → Option κ) (steps : List (Step ν ε)) : List κ :=
  steps.filterMap fun
    | .report event => kind? event
    | .visit _ => none

theorem reported_report (kind? : ε → Option κ) (event : ε) (rest : List (Step ν ε)) :
    reported kind? (.report event :: rest) = (kind? event).toList ++ reported kind? rest := by
  cases h : kind? event <;> simp [reported, h]

theorem reported_visit (kind? : ε → Option κ) (v : ν) (rest : List (Step ν ε)) :
    reported kind? (.visit v :: rest) = reported kind? rest := by
  simp [reported]

theorem reported_append (kind? : ε → Option κ) (first second : List (Step ν ε)) :
    reported kind? (first ++ second) = reported kind? first ++ reported kind? second :=
  List.filterMap_append

theorem reported_flatMap {α : Type} (kind? : ε → Option κ) (items : List α) (steps : α → List (Step ν ε)) :
    reported kind? (items.flatMap steps) = items.flatMap fun item => reported kind? (steps item) :=
  List.filterMap_flatMap

theorem reported_map_visit (kind? : ε → Option κ) (targets : List ν) :
    reported kind? (targets.map .visit) = [] := by
  simp [reported]

end Reported

variable {ν ε : Type} [DecidableEq ν] {nodes : List ν} {script : ν → List (Step ν ε)}

/-! Whole visits. -/

theorem mem_seen_of_mem {steps : List (Step ν ε)} {seen : List ν} {w : ν} (h : w ∈ seen) :
    w ∈ (run nodes script steps seen).2 := by
  fun_induction run nodes script steps seen with
  | case1 seen => exact h
  | case2 seen event rest events later hrun ih =>
    have hmem := ih h
    rw [hrun] at hmem
    exact hmem
  | case3 seen v rest hnew ih => exact ih (List.mem_cons_of_mem v h)
  | case4 seen v rest hold ih => exact ih h

theorem run_visit_new {v : ν} {seen : List ν} (hnode : v ∈ nodes) (hnew : v ∉ seen)
    (rest : List (Step ν ε)) :
    run nodes script (.visit v :: rest) seen =
      ((run nodes script (script v) (v :: seen)).1 ++
        (run nodes script rest (run nodes script (script v) (v :: seen)).2).1,
       (run nodes script rest (run nodes script (script v) (v :: seen)).2).2) := by
  rw [run_visit, if_pos ⟨hnode, hnew⟩, run_append]

theorem run_visit_old {v : ν} {seen : List ν} (hold : ¬ (v ∈ nodes ∧ v ∉ seen)) (rest : List (Step ν ε)) :
    run nodes script (.visit v :: rest) seen = run nodes script rest seen := by
  rw [run_visit, if_neg hold]

theorem unseen_anti {seen later : List ν} (h : ∀ w ∈ seen, w ∈ later) :
    unseen nodes later ≤ unseen nodes seen := by
  apply List.countP_mono_left
  intro w _ hw
  simp only [decide_eq_true_eq] at hw ⊢
  exact fun hmem => hw (h w hmem)

/-- Induction over whole visits: a visit of a new node is done by a run of its script, with the node
    seen, and a run of the rest, with everything seen that the script has come to. -/
theorem visit_induction (nodes : List ν) (script : ν → List (Step ν ε))
    {motive : List (Step ν ε) → List ν → Prop}
    (nil : ∀ seen, motive [] seen)
    (report : ∀ event rest seen, motive rest seen → motive (.report event :: rest) seen)
    (old : ∀ v rest seen, ¬ (v ∈ nodes ∧ v ∉ seen) → motive rest seen → motive (.visit v :: rest) seen)
    (new : ∀ v rest seen, v ∈ nodes → v ∉ seen → motive (script v) (v :: seen) →
      motive rest (run nodes script (script v) (v :: seen)).2 → motive (.visit v :: rest) seen)
    (steps : List (Step ν ε)) (seen : List ν) : motive steps seen := by
  match steps with
  | [] => exact nil seen
  | .report event :: rest =>
    exact report event rest seen (visit_induction nodes script nil report old new rest seen)
  | .visit v :: rest =>
    by_cases h : v ∈ nodes ∧ v ∉ seen
    · exact new v rest seen h.1 h.2 (visit_induction nodes script nil report old new (script v) (v :: seen))
        (visit_induction nodes script nil report old new rest (run nodes script (script v) (v :: seen)).2)
    · exact old v rest seen h (visit_induction nodes script nil report old new rest seen)
termination_by (unseen nodes seen, steps.length)
decreasing_by
  · exact Prod.Lex.right _ (by simp)
  · exact Prod.Lex.left _ _ (unseen_cons_lt h.2 h.1)
  · apply Prod.Lex.left
    exact Nat.lt_of_le_of_lt (unseen_anti fun w hw => mem_seen_of_mem hw) (unseen_cons_lt h.2 h.1)
  · exact Prod.Lex.right _ (by simp)

/-! What a walk enters. -/

/-- The walk comes to a node for the first time. -/
def Enters (nodes : List ν) (script : ν → List (Step ν ε)) (steps : List (Step ν ε)) (seen : List ν) (w : ν) :
    Prop :=
  w ∈ (run nodes script steps seen).2 ∧ w ∉ seen

instance (steps : List (Step ν ε)) (seen : List ν) (w : ν) : Decidable (Enters nodes script steps seen w) :=
  inferInstanceAs (Decidable (_ ∧ _))

/-- The script of one node visits another. -/
def Leads (nodes : List ν) (script : ν → List (Step ν ε)) (u v : ν) : Prop := v ∈ nodes ∧ .visit v ∈ script u

/-- The steps visit a node from which another is reached. -/
def Reaches (nodes : List ν) (script : ν → List (Step ν ε)) (steps : List (Step ν ε)) (w : ν) : Prop :=
  ∃ v, v ∈ nodes ∧ .visit v ∈ steps ∧ Relation.ReflTransGen (Leads nodes script) v w

theorem not_enters_nil (seen : List ν) (w : ν) : ¬ Enters nodes script [] seen w := by
  intro h
  rw [Enters, run_nil] at h
  exact h.2 h.1

theorem enters_report (event : ε) (rest : List (Step ν ε)) (seen : List ν) (w : ν) :
    Enters nodes script (.report event :: rest) seen w ↔ Enters nodes script rest seen w := by
  rw [Enters, run_report]
  rfl

theorem enters_visit_old {v : ν} {seen : List ν} (hold : ¬ (v ∈ nodes ∧ v ∉ seen))
    (rest : List (Step ν ε)) (w : ν) :
    Enters nodes script (.visit v :: rest) seen w ↔ Enters nodes script rest seen w := by
  rw [Enters, run_visit_old hold]
  rfl

theorem enters_visit_new {v : ν} {seen : List ν} (hnode : v ∈ nodes) (hnew : v ∉ seen)
    (rest : List (Step ν ε)) (w : ν) :
    Enters nodes script (.visit v :: rest) seen w ↔
      w = v ∨ Enters nodes script (script v) (v :: seen) w ∨
        Enters nodes script rest (run nodes script (script v) (v :: seen)).2 w := by
  have hself : v ∈ (run nodes script (script v) (v :: seen)).2 := mem_seen_of_mem List.mem_cons_self
  simp only [Enters, run_visit_new hnode hnew]
  refine ⟨fun h => ?_, fun h => ?_⟩
  · by_cases hscript : w ∈ (run nodes script (script v) (v :: seen)).2
    · by_cases hw : w = v
      · exact Or.inl hw
      · exact Or.inr (Or.inl ⟨hscript, by simp [hw, h.2]⟩)
    · exact Or.inr (Or.inr ⟨h.1, hscript⟩)
  · rcases h with rfl | h | h
    · exact ⟨mem_seen_of_mem hself, hnew⟩
    · exact ⟨mem_seen_of_mem h.1, fun hw => h.2 (List.mem_cons_of_mem v hw)⟩
    · exact ⟨h.1, fun hw => h.2 (mem_seen_of_mem (List.mem_cons_of_mem v hw))⟩

/-- A walk enters only what its steps reach. -/
theorem Enters.reaches {steps : List (Step ν ε)} {seen : List ν} {w : ν}
    (h : Enters nodes script steps seen w) : Reaches nodes script steps w := by
  induction steps, seen using visit_induction nodes script with
  | nil seen => exact absurd h (not_enters_nil seen w)
  | report event rest seen ih =>
    obtain ⟨v, hv, hstep, hpath⟩ := ih ((enters_report event rest seen w).mp h)
    exact ⟨v, hv, List.mem_cons_of_mem _ hstep, hpath⟩
  | old u rest seen hold ih =>
    obtain ⟨v, hv, hstep, hpath⟩ := ih ((enters_visit_old hold rest w).mp h)
    exact ⟨v, hv, List.mem_cons_of_mem _ hstep, hpath⟩
  | new v rest seen hnode hnew ihscript ihrest =>
    rcases (enters_visit_new hnode hnew rest w).mp h with rfl | h | h
    · exact ⟨w, hnode, List.mem_cons_self, Relation.ReflTransGen.refl⟩
    · obtain ⟨x, hx, hstep, hpath⟩ := ihscript h
      exact ⟨v, hnode, List.mem_cons_self, Relation.ReflTransGen.head ⟨hx, hstep⟩ hpath⟩
    · obtain ⟨x, hx, hstep, hpath⟩ := ihrest h
      exact ⟨x, hx, List.mem_cons_of_mem _ hstep, hpath⟩

theorem Enters.mem_nodes {steps : List (Step ν ε)} {seen : List ν} {w : ν}
    (h : Enters nodes script steps seen w) : w ∈ nodes := by
  obtain ⟨v, hv, _, hpath⟩ := h.reaches
  cases hpath with
  | refl => exact hv
  | tail _ hleads => exact hleads.1

theorem mem_seen_of_visit {steps : List (Step ν ε)} {seen : List ν} {v : ν} (hnode : v ∈ nodes)
    (h : .visit v ∈ steps) : v ∈ (run nodes script steps seen).2 := by
  obtain ⟨before, after, rfl⟩ := List.append_of_mem h
  rw [run_append]
  dsimp only
  by_cases hnew : v ∈ (run nodes script before seen).2
  · exact mem_seen_of_mem hnew
  · rw [run_visit_new hnode hnew]
    exact mem_seen_of_mem (mem_seen_of_mem List.mem_cons_self)

/-- No edge of an entered node is left unexplored. -/
theorem Enters.mem_seen_of_leads {steps : List (Step ν ε)} {seen : List ν} {u v : ν}
    (h : Enters nodes script steps seen u) (hleads : Leads nodes script u v) :
    v ∈ (run nodes script steps seen).2 := by
  induction steps, seen using visit_induction nodes script with
  | nil seen => exact absurd h (not_enters_nil seen u)
  | report event rest seen ih =>
    rw [run_report]
    exact ih ((enters_report event rest seen u).mp h)
  | old w rest seen hold ih =>
    rw [run_visit_old hold]
    exact ih ((enters_visit_old hold rest u).mp h)
  | new w rest seen hnode hnew ihscript ihrest =>
    rw [run_visit_new hnode hnew]
    -- also the edges of a node that is not left yet are explored: its script goes on to the end
    rcases (enters_visit_new hnode hnew rest u).mp h with rfl | h | h
    · exact mem_seen_of_mem (mem_seen_of_visit hleads.1 hleads.2)
    · exact mem_seen_of_mem (ihscript h)
    · exact ihrest h

/-- With nothing seen before, a walk enters exactly what its steps reach. -/
theorem enters_iff_reaches (steps : List (Step ν ε)) (w : ν) :
    Enters nodes script steps [] w ↔ Reaches nodes script steps w := by
  refine ⟨Enters.reaches, fun h => ?_⟩
  obtain ⟨v, hv, hstep, hpath⟩ := h
  refine ⟨?_, List.not_mem_nil⟩
  induction hpath with
  | refl => exact mem_seen_of_visit hv hstep
  | tail _ hleads ih => exact Enters.mem_seen_of_leads ⟨ih, List.not_mem_nil⟩ hleads

/-! What a walk reports. -/

section Reports
variable [DecidableEq ε]

/-- An event that only the script of `w` reports is reported by the steps themselves and, if the walk
    enters `w`, by that script. -/
theorem count_events {w : ν} {event : ε} (hown : ∀ v ∈ nodes, v ≠ w → .report event ∉ script v)
    (steps : List (Step ν ε)) (seen : List ν) :
    (run nodes script steps seen).1.count event = steps.count (.report event) +
      if Enters nodes script steps seen w then (script w).count (.report event) else 0 := by
  induction steps, seen using visit_induction nodes script with
  | nil seen => simp [run_nil, not_enters_nil]
  | report other rest seen ih =>
    rw [run_report]
    simp only [enters_report, List.count_cons, ih]
    by_cases h : other = event
    · simp [h]; omega
    · simp [h]
  | old v rest seen hold ih =>
    rw [run_visit_old hold, ih, List.count_cons_of_ne (by simp)]
    simp only [enters_visit_old hold]
  | new v rest seen hnode hnew ihscript ihrest =>
    rw [run_visit_new hnode hnew, List.count_append, ihscript, ihrest, List.count_cons_of_ne (by simp)]
    simp only [enters_visit_new hnode hnew]
    have hself : v ∈ (run nodes script (script v) (v :: seen)).2 := mem_seen_of_mem List.mem_cons_self
    by_cases hw : w = v
    · -- the script of `w` itself; neither it nor the rest enters `w` again
      subst hw
      have hscript : ¬ Enters nodes script (script w) (w :: seen) w := fun h => h.2 List.mem_cons_self
      have hrest : ¬ Enters nodes script rest (run nodes script (script w) (w :: seen)).2 w :=
        fun h => h.2 hself
      simp [hscript, hrest]
      omega
    · have hzero : (script v).count (.report event) = 0 :=
        List.count_eq_zero.mpr (hown v hnode (fun h => hw h.symm))
      by_cases hscript : Enters nodes script (script v) (v :: seen) w
      · have hrest : ¬ Enters nodes script rest (run nodes script (script v) (v :: seen)).2 w :=
          fun h => h.2 hscript.1
        simp [hw, hscript, hrest, hzero]
        omega
      · simp [hw, hscript, hzero]

/-- The script of one node reports an event once, and no other script reports it. -/
structure Announces (nodes : List ν) (script : ν → List (Step ν ε)) (w : ν) (event : ε) : Prop where
  own : ∀ v ∈ nodes, v ≠ w → .report event ∉ script v
  once : w ∈ nodes → (script w).count (.report event) = 1

/-- What announces a node is reported once if the walk enters the node, and else not at all. -/
theorem Announces.count_events_eq {w : ν} {event : ε} (h : Announces nodes script w event)
    {steps : List (Step ν ε)} (hsteps : .report event ∉ steps) :
    (events nodes script steps).count event = if Enters nodes script steps [] w then 1 else 0 := by
  rw [events, count_events h.own, List.count_eq_zero.mpr hsteps, Nat.zero_add]
  split
  · next henters => exact h.once henters.mem_nodes
  · rfl

theorem Announces.mem_events_iff {w : ν} {event : ε} (h : Announces nodes script w event)
    {steps : List (Step ν ε)} (hsteps : .report event ∉ steps) :
    event ∈ events nodes script steps ↔ Enters nodes script steps [] w := by
  rw [← List.count_pos_iff, h.count_events_eq hsteps]
  split
  · next henters => exact ⟨fun _ => henters, fun _ => Nat.one_pos⟩
  · next henters => exact ⟨fun hlt => absurd hlt (Nat.lt_irrefl 0), fun hw => absurd hw henters⟩

end Reports

theorem mem_events_of_report {steps : List (Step ν ε)} {event : ε} (h : .report event ∈ steps) (seen : List ν) :
    event ∈ (run nodes script steps seen).1 := by
  obtain ⟨before, after, rfl⟩ := List.append_of_mem h
  rw [run_append, run_report]
  exact List.mem_append_right _ List.mem_cons_self

/-- What the script of an entered node reports is reported. -/
theorem Enters.mem_events {steps : List (Step ν ε)} {seen : List ν} {w : ν} {event : ε}
    (h : Enters nodes script steps seen w) (hreport : .report event ∈ script w) :
    event ∈ (run nodes script steps seen).1 := by
  induction steps, seen using visit_induction nodes script with
  | nil seen => exact absurd h (not_enters_nil seen w)
  | report other rest seen ih =>
    rw [run_report]
    exact List.mem_cons_of_mem _ (ih ((enters_report other rest seen w).mp h))
  | old v rest seen hold ih =>
    rw [run_visit_old hold]
    exact ih ((enters_visit_old hold rest w).mp h)
  | new v rest seen hnode hnew ihscript ihrest =>
    rw [run_visit_new hnode hnew]
    rcases (enters_visit_new hnode hnew rest w).mp h with rfl | h | h
    · exact List.mem_append_left _ (mem_events_of_report hreport _)
    · exact List.mem_append_left _ (ihscript h)
    · exact List.mem_append_right _ (ihrest h)

/-- What is reported is reported by the steps themselves or by the script of an entered node. -/
theorem report_of_mem_events {steps : List (Step ν ε)} {seen : List ν} {event : ε}
    (h : event ∈ (run nodes script steps seen).1) :
    .report event ∈ steps ∨ ∃ w, Enters nodes script steps seen w ∧ .report event ∈ script w := by
  induction steps, seen using visit_induction nodes script with
  | nil seen =>
    rw [run_nil] at h
    exact absurd h List.not_mem_nil
  | report other rest seen ih =>
    rw [run_report] at h
    simp only [enters_report]
    rcases List.mem_cons.mp h with rfl | h
    · exact Or.inl List.mem_cons_self
    · exact (ih h).imp (List.mem_cons_of_mem _) id
  | old v rest seen hold ih =>
    rw [run_visit_old hold] at h
    simp only [enters_visit_old hold]
    exact (ih h).imp (List.mem_cons_of_mem _) id
  | new v rest seen hnode hnew ihscript ihrest =>
    rw [run_visit_new hnode hnew] at h
    simp only [enters_visit_new hnode hnew]
    rcases List.mem_append.mp h with h | h
    · -- the script of `v` reports it, or that of a node below `v`
      rcases ihscript h with hreport | ⟨w, hw, hreport⟩
      · exact Or.inr ⟨v, Or.inl rfl, hreport⟩
      · exact Or.inr ⟨w, Or.inr (Or.inl hw), hreport⟩
    · rcases ihrest h with hreport | ⟨w, hw, hreport⟩
      · exact Or.inl (List.mem_cons_of_mem _ hreport)
      · exact Or.inr ⟨w, Or.inr (Or.inr hw), hreport⟩

theorem mem_events_of_mem_seen {v w : ν} {seen : List ν} {event : ε}
    (hseen : v ∈ (run nodes script (script w) (w :: seen)).2) (hnew : v ∉ seen)
    (hreport : .report event ∈ script v) : event ∈ (run nodes script (script w) (w :: seen)).1 := by
  by_cases hvw : v = w
  · subst hvw
    exact mem_events_of_report hreport _
  · exact Enters.mem_events ⟨hseen, by simp [hvw, hnew]⟩ hreport

/-! Events of one kind. -/

section Kinds
variable {κ : Type} {kind? : ε → Option κ}

theorem filterMap_run_report (event : ε) (rest : List (Step ν ε)) (seen : List ν) :
    (run nodes script (.report event :: rest) seen).1.filterMap kind? =
      (kind? event).toList ++ (run nodes script rest seen).1.filterMap kind? := by
  rw [run_report]
  cases h : kind? event <;> simp [h]

/-- If no script reports events of a kind, apart from those of nodes that were seen before, the events of
    that kind are those that the steps report themselves. -/
theorem filterMap_run_of_silent {steps : List (Step ν ε)} {seen : List ν}
    (hsilent : ∀ v ∈ nodes, v ∉ seen → reported kind? (script v) = []) :
    (run nodes script steps seen).1.filterMap kind? = reported kind? steps := by
  induction steps, seen using visit_induction nodes script with
  | nil seen => rw [run_nil]; rfl
  | report event rest seen ih => rw [filterMap_run_report, ih hsilent, reported_report]
  | old v rest seen hold ih => rw [run_visit_old hold, ih hsilent, reported_visit]
  | new v rest seen hnode hnew ihscript ihrest =>
    have hscript := ihscript fun w hw hunseen => hsilent w hw fun hseen => hunseen (List.mem_cons_of_mem v hseen)
    have hrest := ihrest fun w hw hunseen =>
      hsilent w hw fun hseen => hunseen (mem_seen_of_mem (List.mem_cons_of_mem v hseen))
    rw [run_visit_new hnode hnew, List.filterMap_append, hscript, hrest, hsilent v hnode hnew, reported_visit,
      List.nil_append]

/-- If only the script of `w` reports events of a kind, and the steps do not, the events of that kind are
    those of this script if the walk enters `w`, and else there are none. -/
theorem filterMap_run_of_own {w : ν} (hown : ∀ v ∈ nodes, v ≠ w → reported kind? (script v) = [])
    {steps : List (Step ν ε)} {seen : List ν} (hsteps : reported kind? steps = []) :
    (run nodes script steps seen).1.filterMap kind? =
      if Enters nodes script steps seen w then reported kind? (script w) else [] := by
  induction steps, seen using visit_induction nodes script with
  | nil seen => simp [run_nil, not_enters_nil]
  | report event rest seen ih =>
    rw [reported_report, List.append_eq_nil_iff] at hsteps
    simp only [filterMap_run_report, hsteps.1, ih hsteps.2, List.nil_append, enters_report]
  | old v rest seen hold ih =>
    rw [reported_visit] at hsteps
    simp only [run_visit_old hold, ih hsteps, enters_visit_old hold]
  | new v rest seen hnode hnew ihscript ihrest =>
    rw [reported_visit] at hsteps
    have hself : v ∈ (run nodes script (script v) (v :: seen)).2 := mem_seen_of_mem List.mem_cons_self
    simp only [run_visit_new hnode hnew, List.filterMap_append, enters_visit_new hnode hnew]
    by_cases hw : w = v
    · -- from now on `w` has been seen, and no other script reports anything of the kind
      subst hw
      have hscript : (run nodes script (script w) (w :: seen)).1.filterMap kind? = reported kind? (script w) :=
        filterMap_run_of_silent fun u hu hunseen => hown u hu fun heq => hunseen (heq ▸ List.mem_cons_self)
      have hrest := ihrest hsteps
      rw [if_neg fun henters => henters.2 hself] at hrest
      rw [hscript, hrest, List.append_nil, if_pos (Or.inl rfl)]
    · rw [ihscript (hown v hnode fun heq => hw heq.symm), ihrest hsteps]
      by_cases hscript : Enters nodes script (script v) (v :: seen) w
      · have hrest : ¬ Enters nodes script rest (run nodes script (script v) (v :: seen)).2 w :=
          fun h => h.2 hscript.1
        simp [hw, hscript, hrest]
      · simp [hw, hscript]

end Kinds

/-! The order in which nodes are left. -/

theorem sublist_of_script_eq {u v : ν} {before after : ε} {body : List (Step ν ε)} {seen : List ν}
    (hbody : script u = body ++ [.report after]) (hreport : .report before ∈ script v)
    (hleads : Leads nodes script u v) (hnew : v ∉ seen) :
    [before, after].Sublist (run nodes script (script u) seen).1 := by
  have hstep : .visit v ∈ body := by
    have hvisit := hleads.2
    rw [hbody] at hvisit
    simpa using hvisit
  have hbefore : before ∈ (run nodes script body seen).1 :=
    Enters.mem_events ⟨mem_seen_of_visit hleads.1 hstep, hnew⟩ hreport
  rw [hbody, run_append, run_report]
  apply List.Sublist.append (List.singleton_sublist.mpr hbefore)
  exact List.singleton_sublist.mpr List.mem_cons_self

/-- If every script ends with a report of its node, a node is reported after each one that it leads
    to, unless that one was seen before or leads back to it. -/
theorem Enters.precedes_of_leads {post : ν → ε}
    (hpost : ∀ w ∈ nodes, ∃ body, script w = body ++ [.report (post w)]) {steps : List (Step ν ε)}
    {seen : List ν} {u v : ν} (h : Enters nodes script steps seen u) (hleads : Leads nodes script u v) :
    v ∈ seen ∨ Relation.ReflTransGen (Leads nodes script) v u ∨
      [post v, post u].Sublist (run nodes script steps seen).1 := by
  have hreport : ∀ w ∈ nodes, .report (post w) ∈ script w := by
    intro w hw
    obtain ⟨body, hbody⟩ := hpost w hw
    simp [hbody]
  induction steps, seen using visit_induction nodes script with
  | nil seen => exact absurd h (not_enters_nil seen u)
  | report other rest seen ih =>
    rw [run_report]
    rcases ih ((enters_report other rest seen u).mp h) with hseen | hback | hsub
    · exact Or.inl hseen
    · exact Or.inr (Or.inl hback)
    · exact Or.inr (Or.inr (hsub.cons other))
  | old w rest seen hold ih =>
    rw [run_visit_old hold]
    exact ih ((enters_visit_old hold rest u).mp h)
  | new w rest seen hnode hnew ihscript ihrest =>
    rw [run_visit_new hnode hnew]
    rcases (enters_visit_new hnode hnew rest u).mp h with rfl | h | h
    · -- `u` is entered now: what it leads to is reported while its script is done
      by_cases hearlier : v ∈ u :: seen
      · rcases List.mem_cons.mp hearlier with rfl | hearlier
        · exact Or.inr (Or.inl Relation.ReflTransGen.refl)
        · exact Or.inl hearlier
      · obtain ⟨body, hbody⟩ := hpost u hnode
        have hsub := sublist_of_script_eq hbody (hreport v hleads.1) hleads hearlier
        exact Or.inr (Or.inr (hsub.trans (List.sublist_append_left _ _)))
    · -- `u` is entered below `w`
      rcases ihscript h with hseen | hback | hsub
      · rcases List.mem_cons.mp hseen with rfl | hseen
        · obtain ⟨x, hx, hstep, hpath⟩ := h.reaches
          exact Or.inr (Or.inl (Relation.ReflTransGen.head ⟨hx, hstep⟩ hpath))
        · exact Or.inl hseen
      · exact Or.inr (Or.inl hback)
      · exact Or.inr (Or.inr (hsub.trans (List.sublist_append_left _ _)))
    · -- `u` is entered after `w` was left, and so perhaps after `v`
      rcases ihrest h with hseen | hback | hsub
      · by_cases hearlier : v ∈ seen
        · exact Or.inl hearlier
        · have hv : post v ∈ (run nodes script (script w) (w :: seen)).1 :=
            mem_events_of_mem_seen hseen hearlier (hreport v hleads.1)
          have hu : post u ∈ (run nodes script rest (run nodes script (script w) (w :: seen)).2).1 :=
            h.mem_events (hreport u h.mem_nodes)
          exact Or.inr (Or.inr ((List.singleton_sublist.mpr hv).append (List.singleton_sublist.mpr hu)))
      · exact Or.inr (Or.inl hback)
      · exact Or.inr (Or.inr (hsub.trans (List.sublist_append_right _ _)))

/-! Where a visit stands among the events. -/

theorem mem_nodes_of_mem_seen {v w : ν} {seen : List ν} (hnode : w ∈ nodes)
    (hseen : v ∈ (run nodes script (script w) (w :: seen)).2) (hnew : v ∉ seen) : v ∈ nodes := by
  by_cases hvw : v = w
  · exact hvw ▸ hnode
  · exact Enters.mem_nodes ⟨hseen, by simp [hvw, hnew]⟩

section Beginnings
variable {pre : ν → ε} (hinj : Function.Injective pre)
  (hpre : ∀ w ∈ nodes, ∃ body, script w = .report (pre w) :: body)
include hinj hpre

theorem pre_mem_of_events_eq {u v : ν} (hu : u ∈ nodes) (hv : v ∈ nodes) (hne : v ≠ u) {seen earlier : List ν}
    {before after : List ε}
    (h : (run nodes script (script v) seen).1 = before ++ ((run nodes script (script u) earlier).1 ++ after)) :
    pre v ∈ before := by
  obtain ⟨bodyV, hbodyV⟩ := hpre v hv
  obtain ⟨bodyU, hbodyU⟩ := hpre u hu
  rw [hbodyV, hbodyU, run_report, run_report] at h
  cases before with
  | nil => exact absurd (hinj (List.cons.inj h).1) hne
  | cons first later =>
    rw [(List.cons.inj h).1]
    exact List.mem_cons_self

/-- The events of a walk divide at the visit of an entered node: some come before it, then those of the
    node's own script, then the others. If every script begins with a report of its node, the nodes
    that were seen by then have been reported, unless they were seen from the start. -/
theorem Enters.exists_visit {steps : List (Step ν ε)} {seen : List ν} {u : ν}
    (h : Enters nodes script steps seen u) :
    ∃ before earlier after, u ∉ earlier ∧
      (run nodes script steps seen).1 = before ++ ((run nodes script (script u) (u :: earlier)).1 ++ after) ∧
      ∀ w ∈ earlier, w ∈ seen ∨ pre w ∈ before := by
  induction steps, seen using visit_induction nodes script with
  | nil seen => exact absurd h (not_enters_nil seen u)
  | report event rest seen ih =>
    obtain ⟨before, earlier, after, hnew, hevents, hearlier⟩ := ih ((enters_report event rest seen u).mp h)
    refine ⟨event :: before, earlier, after, hnew, ?_, fun w hw => ?_⟩
    · rw [run_report, hevents, List.cons_append]
    · exact (hearlier w hw).imp id (List.mem_cons_of_mem event)
  | old v rest seen hold ih =>
    rw [run_visit_old hold]
    exact ih ((enters_visit_old hold rest u).mp h)
  | new v rest seen hnode hnew ihscript ihrest =>
    rw [run_visit_new hnode hnew]
    rcases (enters_visit_new hnode hnew rest u).mp h with rfl | h | h
    · exact ⟨[], seen, _, hnew, rfl, fun w hw => Or.inl hw⟩
    · -- `u` is entered below `v`, which is not left yet but has been reported
      obtain ⟨before, earlier, after, hfresh, hevents, hearlier⟩ := ihscript h
      have hne : v ≠ u := fun heq => h.2 (heq ▸ List.mem_cons_self)
      refine ⟨before, earlier, after ++ (run nodes script rest (run nodes script (script v) (v :: seen)).2).1,
        hfresh, by simp only [hevents, List.append_assoc], fun w hw => ?_⟩
      rcases hearlier w hw with hseen | hbefore
      · rcases List.mem_cons.mp hseen with rfl | hseen
        · exact Or.inr (pre_mem_of_events_eq hinj hpre h.mem_nodes hnode hne hevents)
        · exact Or.inl hseen
      · exact Or.inr hbefore
    · -- `u` is entered after `v` was left, and with it all that the visit of `v` has seen
      obtain ⟨before, earlier, after, hfresh, hevents, hearlier⟩ := ihrest h
      refine ⟨_ ++ before, earlier, after, hfresh, by rw [hevents, List.append_assoc], fun w hw => ?_⟩
      rcases hearlier w hw with hseen | hbefore
      · by_cases hstart : w ∈ seen
        · exact Or.inl hstart
        · obtain ⟨body, hbody⟩ := hpre w (mem_nodes_of_mem_seen hnode hseen hstart)
          have hreport : .report (pre w) ∈ script w := by simp [hbody]
          exact Or.inr (List.mem_append_left _ (mem_events_of_mem_seen hseen hstart hreport))
      · exact Or.inr (List.mem_append_right _ hbefore)

end Beginnings

end ProgramIndex.Walk
