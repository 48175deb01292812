import Mathlib.Data.List.Chain
import Mathlib.Order.Lattice

/-
  Versions that follow one another: each is live from its
  start until its stop, if it has one, and a chain of them
  in which every stop is the next start covers each time
  from its first start on exactly once.

  Main declarations:
    * `Timeline.Live`, `Timeline.Proper`, `Timeline.Follows`
    * `Timeline.length_filter_live`
-/

------------------------------------------------------------
-- Versions
------------------------------------------------------------

namespace Ferrex

namespace Timeline

variable {Version Time : Type} [LinearOrder Time]
variable {start : Version → Time}
variable {stop : Version → Option Time}
variable {time : Time} {v w : Version} {vs : List Version}

def Live
    (start : Version → Time)
    (stop : Version → Option Time)
    (time : Time)
    (v : Version) : Prop :=
  start v ≤ time ∧ ∀ x ∈ stop v, time < x

/- A version does not stop before it starts. -/
def Proper
    (start : Version → Time)
    (stop : Version → Option Time)
    (v : Version) : Prop :=
  ∀ x ∈ stop v, start v ≤ x

/- The second version starts when the first one stops. -/
def Follows
    (start : Version → Time)
    (stop : Version → Option Time)
    (v w : Version) : Prop :=
  stop v = some (start w)

------------------------------------------------------------
-- Chains of Versions
------------------------------------------------------------

/- No version of a chain starts before the first one. -/
theorem start_le_of_mem
    (hProper : ∀ w ∈ v :: vs, Proper start stop w)
    (hChain : (v :: vs).IsChain (Follows start stop))
    (hMem : w ∈ v :: vs) :
    start v ≤ start w := by
  induction vs generalizing v with
  | nil =>
      obtain rfl := List.mem_singleton.mp hMem
      exact le_rfl
  | cons v' vs ih =>
      rcases List.isChain_cons_cons.mp hChain with
        ⟨hNext, hRest⟩
      have hStep : start v ≤ start v' :=
        hProper v (by simp) (start v') hNext
      rcases List.mem_cons.mp hMem with rfl | hMem
      · exact le_rfl
      · exact hStep.trans
          (ih (fun w hw => hProper w (by simp [hw]))
            hRest hMem)

/-
  From its first start on, one version of a chain whose last
  one has no stop is live at each time.
-/
theorem length_filter_live
    {live : Version → Bool}
    (hLive :
      ∀ w ∈ v :: vs,
        live w = true ↔ Live start stop time w)
    (hProper : ∀ w ∈ v :: vs, Proper start stop w)
    (hChain : (v :: vs).IsChain (Follows start stop))
    (hLast : stop ((v :: vs).getLast (by simp)) = none)
    (hTime : start v ≤ time) :
    ((v :: vs).filter live).length = 1 := by
  induction vs generalizing v with
  | nil =>
      rw [List.getLast_singleton] at hLast
      have hSelf : live v = true :=
        (hLive v (by simp)).mpr
          ⟨hTime, by simp [hLast]⟩
      simp [hSelf]
  | cons w vs ih =>
      rcases List.isChain_cons_cons.mp hChain with
        ⟨hNext, hRest⟩
      have hTail :
          ∀ u ∈ w :: vs, Proper start stop u :=
        fun u hu => hProper u (List.mem_cons_of_mem v hu)
      rw [List.getLast_cons (by simp)] at hLast
      by_cases hLater : start w ≤ time
      · -- the first version has stopped
        have hSelf : ¬ live v = true := by
          rw [hLive v (by simp)]
          rintro ⟨_, hStop⟩
          exact absurd (hStop (start w) hNext)
            (not_lt.mpr hLater)
        rw [List.filter_cons_of_neg hSelf]
        exact ih (fun u hu =>
          hLive u (List.mem_cons_of_mem v hu)) hTail hRest
          hLast hLater
      · -- no later version has started
        rw [not_le] at hLater
        have hSelf : live v = true := by
          rw [hLive v (by simp)]
          refine ⟨hTime, fun x hx => ?_⟩
          obtain rfl : start w = x :=
            Option.some.inj (hNext.symm.trans hx)
          exact hLater
        have hNone : (w :: vs).filter live = [] := by
          rw [List.filter_eq_nil_iff]
          intro u hu hUp
          have hStarted :=
            ((hLive u (List.mem_cons_of_mem v hu)).mp
              hUp).1
          exact absurd
            ((start_le_of_mem hTail hRest hu).trans hStarted)
            (not_le.mpr hLater)
        rw [List.filter_cons_of_pos hSelf, hNone,
          List.length_singleton]

end Timeline

end Ferrex
