import Ferrex.Store.Sidecar

/-
  The PID file of the sidecar: a process removes or overwrites
  it only with the lock held, and with a warrant from a read
  in that same hold, so that no sidecar that was recorded
  after a judgement is unrecorded by it.

  Main declarations:
    * `Actor.Judged`, `Actor.Warranted`, `Actor.Sound`
    * `Directory.Inv`, `Directory.Inv.next`
    * `sidecar_unrecorded`
-/

------------------------------------------------------------
-- Warrants
------------------------------------------------------------

namespace Ferrex

namespace Store

namespace Sidecar

namespace Directory

/- A child that was spawned and is still to be recorded. -/
def Pending (s : Directory) (child : Nat) : Prop :=
  ∃ i a, s.actors i = some a ∧ a.stage = .writePid child

/- The process is inside the lock. -/
def Inside (s : Directory) (i : Nat) : Prop :=
  ∃ a, s.actors i = some a ∧ a.stage.locked = true

end Directory

namespace Actor

/-
  The process has judged another one not to be qdrant; if that
  one was ever recorded, it was before the judgement.
-/
def Judged (s : Directory) (a : Actor) (pid : Nat) : Prop :=
  pid < s.nextPid ∧ ¬ s.Pending pid ∧
    ∃ time, a.judged = some (pid, time) ∧
      ∀ t, (pid, t) ∈ s.records → t < time

/-
  In its present hold of the lock the process has found the
  PID file unreadable, or has read it.  What it names since
  then is what was found, if it names anything: a process
  that is dead, its own child among them, or one that it had
  judged not to be qdrant.
-/
def Warranted (s : Directory) (a : Actor) : Prop :=
  a.found = some .unreadable ∨
    ∃ found, a.found = some (.names found) ∧
      (s.readPid = none ∨ s.readPid = found) ∧
      ∀ pid, found = some pid →
        pid < s.nextPid ∧
          (s.alive pid = false ∨ a.Judged s pid)

/- What is known of a process at its stage. -/
def Sound (s : Directory) (a : Actor) : Prop :=
  match a.stage with
  | .checkAlive existing =>
      a.found = some (.names (some existing)) ∧
        s.readPid = some existing
  | .inspect existing => s.readPid = some existing
  | .probe existing _ =>
      existing < s.nextPid ∧ ¬ s.Pending existing
  | .reacquire existing => a.Judged s existing
  | .reread existing => a.Judged s existing
  | .removePid _ => a.Warranted s
  | .removePort none => a.Warranted s
  | .spawn => a.Warranted s
  | .writePid child => a.Warranted s ∧ child < s.nextPid
  | .writePort child => child < s.nextPid
  | .health pid _ => pid < s.nextPid
  | .running pid _ => pid < s.nextPid
  | .reap reaping => reaping.child < s.nextPid
  | .reapAcquire reaping =>
      reaping.child < s.nextPid ∧ s.alive reaping.child = false
  | .reapRead reaping =>
      reaping.child < s.nextPid ∧ s.alive reaping.child = false
  | _ => True

section Actor

variable {s : Directory} {a : Actor}

/- A failed call is outside, with nothing to warrant. -/
theorem fail_sound (e : StoreError) :
    (a.fail e).Sound s ∧ (a.fail e).stage.locked = false := by
  unfold fail Sound
  cases a.watching <;> exact ⟨True.intro, rfl⟩

/- So is one that has reaped a sidecar. -/
theorem reaped_sound (reaping : Reaping) :
    (a.reaped reaping).Sound s ∧
      (a.reaped reaping).stage.locked = false := by
  unfold reaped
  split
  · exact ⟨True.intro, rfl⟩
  · exact fail_sound _

/- And one that uses a sidecar which was there. -/
theorem reuse_sound
    {existing : Nat} {recorded : Option Nat}
    (hPid : existing < s.nextPid) :
    (Directory.reuse a existing recorded).Sound s ∧
      (Directory.reuse a existing recorded).stage.locked =
        false := by
  unfold Directory.reuse
  split
  · exact fail_sound _
  · exact ⟨hPid, rfl⟩

end Actor

end Actor

------------------------------------------------------------
-- Steps of Others
------------------------------------------------------------

namespace Directory

/-
  What a step leaves to all processes: dead ones stay dead,
  and only children that were to be recorded are recorded.
-/
structure Frame (s t : Directory) : Prop where
  pids : s.nextPid ≤ t.nextPid
  dead :
    ∀ pid, pid < s.nextPid → s.alive pid = false →
      t.alive pid = false
  pending :
    ∀ pid, pid < s.nextPid → t.Pending pid → s.Pending pid
  records :
    ∀ pid time, (pid, time) ∈ t.records →
      (pid, time) ∈ s.records ∨ s.Pending pid

end Directory

namespace Actor

variable {s t : Directory} {a : Actor} {pid : Nat}

/- What was found out about a sidecar stays right. -/
theorem Judged.mono
    (hJudged : a.Judged s pid)
    (hFrame : s.Frame t) :
    a.Judged t pid := by
  rcases hJudged with ⟨hPid, hSettled, time, hAt, hBefore⟩
  refine ⟨Nat.lt_of_lt_of_le hPid hFrame.pids,
    fun h => hSettled (hFrame.pending pid hPid h), time, hAt,
    fun u hu => ?_⟩
  rcases hFrame.records pid u hu with hOld | hPending
  · exact hBefore u hOld
  · exact absurd hPending hSettled

/- What warrants a touch lasts as long as the file does. -/
theorem Warranted.mono
    (hWarranted : a.Warranted s)
    (hFrame : s.Frame t)
    (hFile : t.pidFile = s.pidFile ∨ t.pidFile = none) :
    a.Warranted t := by
  rcases hWarranted with
    hError | ⟨found, hFound, hNames, hGrounds⟩
  · exact Or.inl hError
  refine Or.inr ⟨found, hFound, ?_, fun pid hPid => ?_⟩
  · unfold Directory.readPid at hNames ⊢
    rcases hFile with hSame | hNone
    · rw [hSame]
      exact hNames
    · rw [hNone]
      exact Or.inl rfl
  · rcases hGrounds pid hPid with ⟨hLt, hGround⟩
    exact ⟨Nat.lt_of_lt_of_le hLt hFrame.pids,
      hGround.imp (hFrame.dead pid hLt)
        (fun h => h.mono hFrame)⟩

/- The file is the same as long as the process is inside. -/
theorem Sound.mono
    (hSound : a.Sound s)
    (hFrame : s.Frame t)
    (hFile : a.stage.locked = true → t.pidFile = s.pidFile) :
    a.Sound t := by
  have hPids := hFrame.pids
  unfold Sound at hSound ⊢
  split at hSound
  case h_1 hStage =>
    rw [hStage] at hFile
    refine ⟨hSound.1, ?_⟩
    unfold Directory.readPid
    rw [hFile rfl]
    exact hSound.2
  case h_2 hStage =>
    rw [hStage] at hFile
    unfold Directory.readPid
    rw [hFile rfl]
    exact hSound
  case h_3 =>
    exact ⟨by omega,
      fun h => hSound.2 (hFrame.pending _ hSound.1 h)⟩
  case h_4 => exact hSound.mono hFrame
  case h_5 => exact hSound.mono hFrame
  case h_6 hStage =>
    exact hSound.mono hFrame
      (Or.inl (hFile (by rw [hStage]; rfl)))
  case h_7 hStage =>
    exact hSound.mono hFrame
      (Or.inl (hFile (by rw [hStage]; rfl)))
  case h_8 hStage =>
    exact hSound.mono hFrame
      (Or.inl (hFile (by rw [hStage]; rfl)))
  case h_9 hStage =>
    exact ⟨hSound.1.mono hFrame
      (Or.inl (hFile (by rw [hStage]; rfl))), by omega⟩
  case h_10 => omega
  case h_11 => omega
  case h_12 => omega
  case h_13 => omega
  case h_14 =>
    exact ⟨by omega, hFrame.dead _ hSound.1 hSound.2⟩
  case h_15 =>
    exact ⟨by omega, hFrame.dead _ hSound.1 hSound.2⟩
  case h_16 => exact True.intro

end Actor

------------------------------------------------------------
-- The Invariant
------------------------------------------------------------

namespace Directory

open Mutex

/-
  The processes that are inside have the lock, the PID file
  names no process of the future, records are past, and what
  is known of each process at its stage holds.
-/
structure Inv (s : Directory) : Prop where
  guarded : Guarded s.lock s.Inside
  named : ∀ pid, s.readPid = some pid → pid < s.nextPid
  past : ∀ pid time, (pid, time) ∈ s.records → time < s.time
  sound : ∀ i a, s.actors i = some a → a.Sound s

variable {s t : Directory} {i : Nat} {a a' : Actor}

/- An empty directory satisfies the invariant. -/
theorem Initial.inv (hInitial : s.Initial) : s.Inv where
  guarded i := by
    rw [hInitial.lock]
    constructor
    · rintro ⟨a, hActor, _⟩
      rw [hInitial.actors] at hActor
      cases hActor
    · intro h
      cases h
  named := hInitial.named
  past pid time h := by
    rw [hInitial.records] at h
    cases h
  sound i a hActor := by
    rw [hInitial.actors] at hActor
    cases hActor

/- A process that is to record its child is inside. -/
theorem Inv.not_pending
    (hInv : s.Inv)
    (hActor : s.actors i = some a)
    (hLocked : a.stage.locked = true)
    (hStage : ∀ child, a.stage ≠ .writePid child)
    (child : Nat) :
    ¬ s.Pending child := by
  rintro ⟨j, b, hOther, hChild⟩
  obtain rfl : i = j :=
    hInv.guarded.unique ⟨a, hActor, hLocked⟩
      ⟨b, hOther, by rw [hChild]; rfl⟩
  rw [hActor] at hOther
  cases hOther
  exact hStage child hChild

/- What a process reads in the file is known. -/
theorem Inv.inside_put
    (hActors : t.actors = Function.update s.actors i (some a))
    (j : Nat)
    (hOther : j ≠ i) :
    t.Inside j ↔ s.Inside j := by
  unfold Inside
  rw [hActors, Function.update_of_ne hOther]

/- A process is inside if its stage is. -/
theorem Inv.inside_self
    (hActors :
      t.actors = Function.update s.actors i (some a)) :
    t.Inside i ↔ a.stage.locked = true := by
  unfold Inside
  rw [hActors, Function.update_self]
  simp

/- A step of one process, in whatever way it comes out. -/
theorem Inv.put
    (hInv : s.Inv)
    (hActors :
      t.actors = Function.update s.actors i (some a'))
    (hFrame : s.Frame t)
    (hTime : s.time ≤ t.time)
    (hGuarded : Guarded t.lock t.Inside)
    (hFile :
      ∀ j, j ≠ i → s.Inside j → t.pidFile = s.pidFile)
    (hNamed : ∀ pid, t.readPid = some pid → pid < t.nextPid)
    (hPast :
      ∀ pid time, (pid, time) ∈ t.records →
        (pid, time) ∈ s.records ∨ time < t.time)
    (hSound : a'.Sound t) :
    t.Inv where
  guarded := hGuarded
  named := hNamed
  past pid time h := by
    rcases hPast pid time h with hOld | hNow
    · have hBefore := hInv.past pid time hOld
      omega
    · exact hNow
  sound j b hActor := by
    by_cases hEq : j = i
    · rw [hEq, hActors, Function.update_self] at hActor
      cases hActor
      exact hSound
    · rw [hActors, Function.update_of_ne hEq] at hActor
      exact (hInv.sound j b hActor).mono hFrame
        (fun h => hFile j hEq ⟨b, hActor, h⟩)

/- How a step of a process leaves the lock. -/
def Locks
    (s : Directory)
    (i : Nat)
    (a' : Actor)
    (lock : Option Nat) : Prop :=
  (lock = s.lock ∧ (a'.stage.locked = true ↔ s.Inside i)) ∨
  (s.lock = none ∧ lock = some i ∧
    a'.stage.locked = true) ∨
  (s.Inside i ∧ lock = none ∧ a'.stage.locked = false)

/-
  The lock is passed from one process to another, or kept.
-/
theorem Inv.guarded_put
    (hInv : s.Inv)
    (hActors :
      t.actors = Function.update s.actors i (some a'))
    (hLocks : s.Locks i a' t.lock) :
    Guarded t.lock t.Inside := by
  have hOthers := inside_put hActors
  rcases hLocks with
    ⟨hLock, hSame⟩ | ⟨hFree, hLock, hIn⟩ |
      ⟨hInside, hLock, hOut⟩
  · rw [hLock]
    exact hInv.guarded.keep hOthers
      ((inside_self hActors).trans hSame)
  · rw [hLock]
    exact hInv.guarded.take hFree hOthers
      ((inside_self hActors).mpr hIn)
  · rw [hLock]
    refine hInv.guarded.release hInside hOthers ?_
    rw [inside_self hActors, hOut]
    simp

/- A step that leaves the PID file and all processes alone. -/
theorem Inv.move
    {lock : Option Nat} {portFile : Option (Nat × Nat)}
    (hInv : s.Inv)
    (hLocks : s.Locks i a' lock)
    (hStage : ∀ child, a'.stage ≠ .writePid child)
    (hSound : a'.Sound s) :
    ({ s with lock := lock, portFile := portFile }.put i
      a').Inv := by
  have hFrame :
      s.Frame ({ s with
        lock := lock, portFile := portFile }.put i a') := by
    refine ⟨Nat.le_refl _, fun _ _ h => h, ?_,
      fun _ _ h => Or.inl h⟩
    rintro pid _ ⟨j, b, hActor, hChild⟩
    change Function.update s.actors i (some a') j = _
      at hActor
    rw [Function.update_apply] at hActor
    split at hActor
    · cases hActor
      exact absurd hChild (hStage pid)
    · exact ⟨j, b, hActor, hChild⟩
  exact hInv.put rfl hFrame (Nat.le_succ _)
    (hInv.guarded_put rfl hLocks) (fun _ _ _ => rfl)
    hInv.named (fun _ _ h => Or.inl h)
    (hSound.mono hFrame (fun _ => rfl))

------------------------------------------------------------
-- Steps
------------------------------------------------------------

/- A step inside the lock. -/
theorem Inv.inside
    (hInv : s.Inv)
    (hActor : s.actors i = some a)
    (hLocked : a.stage.locked = true)
    (hIn : a'.stage.locked = true)
    (hStage : ∀ child, a'.stage ≠ .writePid child)
    (hSound : a'.Sound s) :
    (s.put i a').Inv :=
  hInv.move
    (Or.inl ⟨rfl, fun _ => ⟨a, hActor, hLocked⟩, fun _ => hIn⟩)
    hStage hSound

/- A step outside of it. -/
theorem Inv.outside
    (hInv : s.Inv)
    (hActor : ∀ a, s.actors i = some a → a.stage.locked = false)
    (hOut : a'.Sound s ∧ a'.stage.locked = false) :
    (s.put i a').Inv := by
  refine hInv.move (Or.inl ⟨rfl, ?_⟩) (fun child h => ?_) hOut.1
  · rw [hOut.2]
    constructor
    · intro h
      cases h
    · rintro ⟨a, hSome, hLocked⟩
      rw [hActor a hSome] at hLocked
      cases hLocked
  · rw [h] at hOut
    cases hOut.2

/- The lock is taken when it is free. -/
theorem Inv.take
    (hInv : s.Inv)
    (hFree : s.lock = none)
    (hIn : a'.stage.locked = true)
    (hStage : ∀ child, a'.stage ≠ .writePid child)
    (hSound : a'.Sound s) :
    ((s.locking i).put i a').Inv :=
  hInv.move (Or.inr (Or.inl ⟨hFree, rfl, hIn⟩)) hStage hSound

/- And it is let go of. -/
theorem Inv.release
    (hInv : s.Inv)
    (hActor : s.actors i = some a)
    (hLocked : a.stage.locked = true)
    (hOut : a'.Sound s ∧ a'.stage.locked = false) :
    (s.unlock.put i a').Inv := by
  refine hInv.move
    (Or.inr (Or.inr ⟨⟨a, hActor, hLocked⟩, rfl, hOut.2⟩))
    (fun child h => ?_) hOut.1
  rw [h] at hOut
  cases hOut.2

/- A warrant from what a process has just read. -/
theorem Inv.warranted
    (hInv : s.Inv)
    (hFound : a'.found = some (.names s.readPid))
    (hGrounds :
      ∀ pid, s.readPid = some pid →
        s.alive pid = false ∨ a'.Judged s pid) :
    a'.Warranted s :=
  Or.inr ⟨_, hFound, Or.inr rfl, fun pid hPid =>
    ⟨hInv.named pid hPid, hGrounds pid hPid⟩⟩

/- Nothing but the one process, and what it does not share. -/
theorem frame_put
    (hActors :
      t.actors = Function.update s.actors i (some a'))
    (hStage :
      ∀ child, a'.stage = .writePid child → s.nextPid ≤ child)
    (hPids : s.nextPid ≤ t.nextPid)
    (hDead :
      ∀ pid, pid < s.nextPid → s.alive pid = false →
        t.alive pid = false)
    (hRecords :
      ∀ pid time, (pid, time) ∈ t.records →
        (pid, time) ∈ s.records ∨ s.Pending pid) :
    s.Frame t := by
  refine ⟨hPids, hDead, ?_, hRecords⟩
  rintro pid hPid ⟨j, b, hActor, hChild⟩
  rw [hActors, Function.update_apply] at hActor
  split at hActor
  · cases hActor
    have hLe := hStage pid hChild
    omega
  · exact ⟨j, b, hActor, hChild⟩

/- A warrant allows the file to be removed. -/
theorem Inv.removeFile
    {reaping : Option Reaping}
    (hInv : s.Inv)
    (hActor : s.actors i = some a)
    (hStage : a.stage = .removePid reaping) :
    ({ s with pidFile := none }.put i
      (a.at (.removePort reaping))).Inv := by
  have hLocked : a.stage.locked = true := by rw [hStage]; rfl
  have hWarranted : a.Warranted s := by
    have hSound := hInv.sound i a hActor
    unfold Actor.Sound at hSound
    rw [hStage] at hSound
    exact hSound
  have hFrame :
      s.Frame ({ s with pidFile := none }.put i
        (a.at (.removePort reaping))) :=
    frame_put rfl (fun _ h => by cases h) (Nat.le_refl _)
      (fun _ _ h => h) (fun _ _ h => Or.inl h)
  refine hInv.put rfl hFrame (Nat.le_succ _)
    (hInv.guarded_put rfl (Or.inl ⟨rfl, ?_⟩))
    (fun j hOther hInside => ?_) (fun pid h => by cases h)
    (fun _ _ h => Or.inl h) ?_
  · exact ⟨fun _ => ⟨a, hActor, hLocked⟩, fun _ => rfl⟩
  · exact absurd hInside
      (hInv.guarded.not_inside ⟨a, hActor, hLocked⟩ hOther)
  · cases reaping with
    | none => exact hWarranted.mono hFrame (Or.inr rfl)
    | some reaping => exact True.intro

/- The child gets an id that nobody had before. -/
theorem Inv.spawnChild
    (hInv : s.Inv)
    (hActor : s.actors i = some a)
    (hStage : a.stage = .spawn) :
    ({ s with
        alive := Function.update s.alive s.nextPid true
        nextPid := s.nextPid + 1 }.put i
      (a.at (.writePid s.nextPid))).Inv := by
  have hLocked : a.stage.locked = true := by rw [hStage]; rfl
  have hWarranted : a.Warranted s := by
    have hSound := hInv.sound i a hActor
    unfold Actor.Sound at hSound
    rw [hStage] at hSound
    exact hSound
  have hFrame :
      s.Frame ({ s with
        alive := Function.update s.alive s.nextPid true
        nextPid := s.nextPid + 1 }.put i
          (a.at (.writePid s.nextPid))) := by
    refine frame_put rfl (fun child h => ?_) (Nat.le_succ _)
      (fun pid hPid h => ?_) (fun _ _ h => Or.inl h)
    · cases h
      exact Nat.le_refl _
    · change Function.update s.alive s.nextPid true pid = _
      rw [Function.update_of_ne (by omega), h]
  refine hInv.put rfl hFrame (Nat.le_succ _)
    (hInv.guarded_put rfl (Or.inl ⟨rfl, ?_⟩))
    (fun _ _ _ => rfl) (fun pid h => ?_)
    (fun _ _ h => Or.inl h) ?_
  · exact ⟨fun _ => ⟨a, hActor, hLocked⟩, fun _ => rfl⟩
  · exact Nat.lt_succ_of_lt (hInv.named pid h)
  · exact ⟨hWarranted.mono hFrame (Or.inl rfl),
      Nat.lt_succ_self _⟩

/- The child is recorded. -/
theorem Inv.record
    {child : Nat}
    (hInv : s.Inv)
    (hActor : s.actors i = some a)
    (hStage : a.stage = .writePid child) :
    ({ s with
        pidFile := some (some child)
        records := s.records ++ [(child, s.time)] }.put i
      (a.at (.writePort child))).Inv := by
  have hLocked : a.stage.locked = true := by rw [hStage]; rfl
  have hChild : child < s.nextPid := by
    have hSound := hInv.sound i a hActor
    unfold Actor.Sound at hSound
    rw [hStage] at hSound
    exact hSound.2
  refine hInv.put rfl (frame_put rfl (fun _ h => by cases h)
      (Nat.le_refl _) (fun _ _ h => h) (fun pid time h => ?_))
    (Nat.le_succ _)
    (hInv.guarded_put rfl (Or.inl ⟨rfl, ?_⟩))
    (fun j hOther hInside => ?_) (fun pid h => ?_)
    (fun pid time h => ?_) hChild
  · refine (List.mem_append.mp h).imp_right fun hNew => ?_
    cases List.mem_singleton.mp hNew
    exact ⟨i, a, hActor, hStage⟩
  · exact ⟨fun _ => ⟨a, hActor, hLocked⟩, fun _ => rfl⟩
  · exact absurd hInside
      (hInv.guarded.not_inside ⟨a, hActor, hLocked⟩ hOther)
  · cases h
    exact hChild
  · refine (List.mem_append.mp h).imp_right fun hNew => ?_
    cases List.mem_singleton.mp hNew
    exact Nat.lt_succ_self _

/- The file is written in part, and names nobody. -/
theorem Inv.truncate
    {child : Nat} {reaping : Reaping}
    (hInv : s.Inv)
    (hActor : s.actors i = some a)
    (hStage : a.stage = .writePid child)
    (hChild : reaping.child < s.nextPid) :
    ({ s.unlock with pidFile := some none }.put i
      (a.at (.reap reaping))).Inv := by
  have hLocked : a.stage.locked = true := by rw [hStage]; rfl
  refine hInv.put rfl (frame_put rfl (fun _ h => by cases h)
      (Nat.le_refl _) (fun _ _ h => h)
      (fun _ _ h => Or.inl h))
    (Nat.le_succ _)
    (hInv.guarded_put rfl
      (Or.inr (Or.inr ⟨⟨a, hActor, hLocked⟩, rfl, rfl⟩)))
    (fun j hOther hInside => ?_) (fun pid h => by cases h)
    (fun _ _ h => Or.inl h) hChild
  exact absurd hInside
    (hInv.guarded.not_inside ⟨a, hActor, hLocked⟩ hOther)

/- The child is killed and waited for. -/
theorem Inv.kill
    {reaping : Reaping}
    (hInv : s.Inv)
    (hActor : s.actors i = some a)
    (hStage : a.stage = .reap reaping) :
    ({ s with
        alive := Function.update s.alive reaping.child false
      }.put i (a.at (.reapAcquire reaping))).Inv := by
  have hOut : a.stage.locked = false := by rw [hStage]; rfl
  have hChild : reaping.child < s.nextPid := by
    have hSound := hInv.sound i a hActor
    unfold Actor.Sound at hSound
    rw [hStage] at hSound
    exact hSound
  refine hInv.put rfl (frame_put rfl (fun _ h => by cases h)
      (Nat.le_refl _) (fun pid _ h => ?_)
      (fun _ _ h => Or.inl h))
    (Nat.le_succ _)
    (hInv.guarded_put rfl (Or.inl ⟨rfl, ?_⟩))
    (fun _ _ _ => rfl) hInv.named (fun _ _ h => Or.inl h)
    ⟨hChild, Function.update_self _ _ _⟩
  · change Function.update s.alive reaping.child false pid = _
    rw [Function.update_apply, h, ite_self]
  · constructor
    · intro h
      cases h
    · rintro ⟨b, hOther, hIn⟩
      rw [hActor] at hOther
      cases hOther
      rw [hOut] at hIn
      cases hIn

/- Each step of a process is one of these. -/
theorem Inv.act
    {o : Outcome}
    (hInv : s.Inv)
    (hActor : s.actors i = some a)
    (hNext : s.actNext i a o = some t) :
    t.Inv := by
  have hSound := hInv.sound i a hActor
  have hStay :
      a.stage.locked = false →
        ∀ b, s.actors i = some b → b.stage.locked = false := by
    intro hOut b hSome
    cases hActor.symm.trans hSome
    exact hOut
  unfold Actor.Sound at hSound
  cases hStage : a.stage <;> cases o <;>
    simp only [actNext, hStage, Option.some.injEq,
      reduceCtorEq] at hNext
  all_goals rw [hStage] at hSound hStay
  case acquire.ok =>
    split at hNext <;> cases hNext
    exact hInv.take ‹_› rfl (fun _ h => by cases h) True.intro
  case acquire.failed e =>
    subst hNext
    exact hInv.outside (hStay rfl) (Actor.fail_sound _)
  case resolve.ok =>
    subst hNext
    refine hInv.inside hActor (by rw [hStage]; rfl) ?_ ?_ ?_
    all_goals cases hRead : s.readPid
    · rfl
    · rfl
    · exact fun _ h => by cases h
    · exact fun _ h => by cases h
    · exact hInv.warranted
        (congrArg (fun pid => some (Reading.names pid))
          hRead.symm)
        (fun pid h => by rw [hRead] at h; cases h)
    · exact ⟨rfl, hRead⟩
  case resolve.failed e =>
    subst hNext
    exact hInv.inside hActor (by rw [hStage]; rfl) rfl
      (fun _ h => by cases h) (Or.inl rfl)
  case checkAlive.ok existing =>
    subst hNext
    cases hAlive : s.alive existing with
    | true =>
        exact hInv.inside hActor (by rw [hStage]; rfl) rfl
          (fun _ h => by cases h) hSound.2
    | false =>
        refine hInv.inside hActor (by rw [hStage]; rfl) rfl
          (fun _ h => by cases h) (hInv.warranted ?_ ?_)
        · exact hSound.1.trans
            (congrArg (fun pid => some (Reading.names pid))
              hSound.2.symm)
        · intro pid hRead
          rw [hSound.2] at hRead
          cases hRead
          exact Or.inl hAlive
  case inspect.ok existing =>
    subst hNext
    exact hInv.release hActor (by rw [hStage]; rfl)
      (Actor.reuse_sound (hInv.named existing hSound))
  case inspect.failed existing e =>
    subst hNext
    refine hInv.release hActor (by rw [hStage]; rfl)
      ⟨⟨hInv.named existing hSound, ?_⟩, rfl⟩
    exact hInv.not_pending hActor (by rw [hStage]; rfl)
      (fun _ h => by rw [hStage] at h; cases h) existing
  case probe.ok existing recorded =>
    subst hNext
    exact hInv.outside (hStay rfl) (Actor.reuse_sound hSound.1)
  case probe.failed existing recorded e =>
    subst hNext
    refine hInv.outside (hStay rfl) ⟨?_, rfl⟩
    exact ⟨hSound.1, hSound.2, s.time, rfl, hInv.past existing⟩
  case reacquire.ok existing =>
    split at hNext <;> cases hNext
    exact hInv.take ‹_› rfl (fun _ h => by cases h) hSound
  case reacquire.failed existing e =>
    subst hNext
    exact hInv.outside (hStay rfl) (Actor.fail_sound _)
  case reread.ok existing =>
    subst hNext
    by_cases hSame : s.readPid = some existing
    · rw [if_pos hSame]
      refine hInv.inside hActor (by rw [hStage]; rfl) rfl
        (fun _ h => by cases h) (hInv.warranted rfl ?_)
      intro pid hRead
      rw [hSame] at hRead
      cases hRead
      exact Or.inr hSound
    · rw [if_neg hSame]
      exact hInv.inside hActor (by rw [hStage]; rfl) rfl
        (fun _ h => by cases h) True.intro
  case reread.failed existing e =>
    subst hNext
    exact hInv.inside hActor (by rw [hStage]; rfl) rfl
      (fun _ h => by cases h) True.intro
  case removePid.ok reaping =>
    subst hNext
    exact hInv.removeFile hActor hStage
  case removePid.failed reaping e =>
    subst hNext
    refine hInv.inside hActor (by rw [hStage]; rfl) rfl
      (fun _ h => by cases h) ?_
    cases reaping with
    | none => exact hSound
    | some reaping => exact True.intro
  case removePort.ok reaping =>
    cases reaping with
    | none =>
        cases hNext
        exact hInv.move
          (Or.inl ⟨rfl, fun _ => ⟨a, hActor, by rw [hStage]; rfl⟩,
            fun _ => rfl⟩)
          (fun _ h => by cases h) hSound
    | some reaping =>
        cases hNext
        have hOut := Actor.reaped_sound (s := s) (a := a) reaping
        refine hInv.move
          (Or.inr (Or.inr ⟨⟨a, hActor, by rw [hStage]; rfl⟩, rfl,
            hOut.2⟩)) (fun child h => ?_) hOut.1
        rw [h] at hOut
        cases hOut.2
  case removePort.failed reaping e =>
    cases reaping with
    | none =>
        cases hNext
        exact hInv.inside hActor (by rw [hStage]; rfl) rfl
          (fun _ h => by cases h) hSound
    | some reaping =>
        cases hNext
        exact hInv.release hActor (by rw [hStage]; rfl)
          (Actor.reaped_sound reaping)
  case spawn.ok =>
    split at hNext <;> cases hNext
    · exact hInv.release hActor (by rw [hStage]; rfl)
        (Actor.fail_sound _)
    · exact hInv.spawnChild hActor hStage
  case spawn.failed e =>
    subst hNext
    exact hInv.release hActor (by rw [hStage]; rfl)
      (Actor.fail_sound _)
  case writePid.ok child =>
    subst hNext
    exact hInv.record hActor hStage
  case writePid.failed child e =>
    subst hNext
    exact hInv.release hActor (by rw [hStage]; rfl)
      ⟨hSound.2, rfl⟩
  case writePid.truncated child e =>
    subst hNext
    exact hInv.truncate hActor hStage hSound.2
  case writePort.ok child =>
    subst hNext
    exact hInv.move
      (Or.inr (Or.inr ⟨⟨a, hActor, by rw [hStage]; rfl⟩, rfl,
        rfl⟩)) (fun _ h => by cases h) hSound
  case writePort.failed child e =>
    subst hNext
    exact hInv.release hActor (by rw [hStage]; rfl)
      ⟨hSound, rfl⟩
  case writePort.truncated child e =>
    subst hNext
    exact hInv.move
      (Or.inr (Or.inr ⟨⟨a, hActor, by rw [hStage]; rfl⟩, rfl,
        rfl⟩)) (fun _ h => by cases h) hSound
  case health.ok pid ours =>
    subst hNext
    exact hInv.outside (hStay rfl) ⟨hSound, rfl⟩
  case health.failed pid ours e =>
    cases ours with
    | true =>
        cases hNext
        exact hInv.outside (hStay rfl) ⟨hSound, rfl⟩
    | false =>
        cases hNext
        exact hInv.outside (hStay rfl) (Actor.fail_sound _)
  case running.ok pid ours =>
    split at hNext
    · cases hNext
      refine hInv.outside (hStay rfl) ?_
      cases ours with
      | true => exact ⟨hSound, rfl⟩
      | false => exact ⟨True.intro, rfl⟩
    · split at hNext <;> cases hNext
      exact hInv.outside (hStay rfl) ⟨True.intro, rfl⟩
  case running.failed pid ours e =>
    split at hNext <;> cases hNext
    exact hInv.outside (hStay rfl) ⟨True.intro, rfl⟩
  case reap.ok reaping =>
    subst hNext
    exact hInv.kill hActor hStage
  case reapAcquire.ok reaping =>
    split at hNext <;> cases hNext
    exact hInv.take ‹_› rfl (fun _ h => by cases h) hSound
  case reapAcquire.failed reaping e =>
    subst hNext
    exact hInv.outside (hStay rfl) (Actor.reaped_sound reaping)
  case reapRead.ok reaping =>
    split at hNext
    · rename_i hOurs
      cases hNext
      refine hInv.inside hActor (by rw [hStage]; rfl) rfl
        (fun _ h => by cases h) (hInv.warranted rfl ?_)
      intro pid hRead
      rw [hOurs] at hRead
      cases hRead
      exact Or.inl hSound.2
    · cases hNext
      exact hInv.release hActor (by rw [hStage]; rfl)
        (Actor.reaped_sound reaping)
  case reapRead.failed reaping e =>
    subst hNext
    exact hInv.release hActor (by rw [hStage]; rfl)
      (Actor.reaped_sound reaping)

/- A step of the machine that no process of ours takes. -/
theorem Inv.external
    (hInv : s.Inv)
    (hActors : t.actors = s.actors)
    (hLock : t.lock = s.lock)
    (hFile : t.pidFile = s.pidFile)
    (hRecords : t.records = s.records)
    (hTime : s.time ≤ t.time)
    (hPids : s.nextPid ≤ t.nextPid)
    (hDead :
      ∀ pid, pid < s.nextPid → s.alive pid = false →
        t.alive pid = false) :
    t.Inv := by
  have hFrame : s.Frame t := by
    refine ⟨hPids, hDead, ?_, fun _ _ h => Or.inl ?_⟩
    · rintro pid _ ⟨i, a, hActor, hChild⟩
      exact ⟨i, a, hActors ▸ hActor, hChild⟩
    · rw [← hRecords]
      exact h
  constructor
  case guarded =>
    have hSame : t.Inside = s.Inside := by
      unfold Inside
      rw [hActors]
    rw [hLock, hSame]
    exact hInv.guarded
  case named =>
    intro pid h
    unfold readPid at h
    rw [hFile] at h
    exact Nat.lt_of_lt_of_le (hInv.named pid h) hPids
  case past =>
    intro pid time h
    rw [hRecords] at h
    exact Nat.lt_of_lt_of_le (hInv.past pid time h) hTime
  case sound =>
    intro i a hActor
    rw [hActors] at hActor
    exact (hInv.sound i a hActor).mono hFrame (fun _ => hFile)

/- And so is each event of the directory. -/
theorem Inv.next
    {e : Event}
    (hInv : s.Inv)
    (hNext : s.next e = some t) :
    t.Inv := by
  cases e with
  | begin i port policy =>
      simp only [Directory.next] at hNext
      split at hNext <;> cases hNext
      rename_i hNone
      refine hInv.outside (fun a h => ?_) ⟨True.intro, rfl⟩
      rw [hNone] at h
      cases h
  | act i o =>
      simp only [Directory.next] at hNext
      split at hNext
      · rename_i a hActor
        exact hInv.act hActor hNext
      · cases hNext
  | crash i =>
      simp only [Directory.next] at hNext
      split at hNext
      · rename_i a hActor
        cases hNext
        split
        · rename_i hLocked
          exact hInv.release hActor hLocked ⟨True.intro, rfl⟩
        · rename_i hOut
          refine hInv.outside (fun b h => ?_) ⟨True.intro, rfl⟩
          cases hActor.symm.trans h
          simpa using hOut
      · cases hNext
  | fork =>
      cases hNext
      refine hInv.external rfl rfl rfl rfl (Nat.le_succ _)
        (Nat.le_succ _) (fun pid hPid h => ?_)
      change Function.update s.alive s.nextPid true pid = _
      rw [Function.update_of_ne (by omega), h]
  | exit pid =>
      cases hNext
      refine hInv.external rfl rfl rfl rfl (Nat.le_succ _)
        (Nat.le_refl _) (fun other _ h => ?_)
      change Function.update s.alive pid false other = _
      rw [Function.update_apply, h, ite_self]

/- The invariant holds in each reachable state. -/
theorem inv_of_reachable
    (hReach : machine.Reachable s) :
    s.Inv := by
  rcases hReach with ⟨s₀, es, hInitial, hRun⟩
  exact hRun.invariant
    (fun _ _ _ hInv hNext => Inv.next hInv hNext)
    hInitial.inv

------------------------------------------------------------
-- The PID File
------------------------------------------------------------

/- The step removes or overwrites the PID file. -/
def Touches (s : Directory) (e : Event) (i : Nat) : Prop :=
  ∃ a o, s.actors i = some a ∧ e = .act i o ∧
    a.stage.touches = true

/- Only some stages touch the PID file. -/
theorem pidFile_actNext
    {o : Outcome}
    (hNext : s.actNext i a o = some t)
    (hStage : a.stage.touches = false) :
    t.pidFile = s.pidFile := by
  cases hAt : a.stage <;> cases o <;>
    simp only [actNext, hAt, Option.some.injEq,
      reduceCtorEq] at hNext
  all_goals rw [hAt] at hStage
  case removePid.ok | removePid.failed | writePid.ok |
    writePid.failed | writePid.truncated => cases hStage
  case removePort.ok reaping =>
    cases reaping <;> cases hNext <;> rfl
  case removePort.failed reaping e =>
    cases reaping <;> cases hNext <;> rfl
  case health.failed pid ours e =>
    cases ours <;> cases hNext <;> rfl
  case running.ok pid ours =>
    split at hNext
    · cases hNext
      rfl
    · split at hNext <;> cases hNext
      rfl
  case acquire.ok | reacquire.ok | spawn.ok | running.failed |
    reapAcquire.ok | reapRead.ok =>
      split at hNext <;> cases hNext <;> rfl
  all_goals
    subst hNext
    rfl

/- So where it has changed, a process has touched it. -/
theorem touches_of_pidFile_ne
    {e : Event}
    (hNext : s.next e = some t)
    (hFile : t.pidFile ≠ s.pidFile) :
    ∃ i, s.Touches e i := by
  cases e with
  | begin i port policy =>
      simp only [Directory.next] at hNext
      split at hNext <;> cases hNext
      exact absurd rfl hFile
  | act i o =>
      simp only [Directory.next] at hNext
      split at hNext
      · rename_i a hActor
        refine ⟨i, a, o, hActor, rfl, ?_⟩
        by_contra hStage
        exact hFile (pidFile_actNext hNext (by simpa using hStage))
      · cases hNext
  | crash i =>
      simp only [Directory.next] at hNext
      split at hNext
      · cases hNext
        split at hFile <;> exact absurd rfl hFile
      · cases hNext
  | fork =>
      cases hNext
      exact absurd rfl hFile
  | exit pid =>
      cases hNext
      exact absurd rfl hFile

/- Who touches the file has the lock and a reason. -/
theorem Inv.warranted_of_touches
    {e : Event}
    (hInv : s.Inv)
    (hTouches : s.Touches e i) :
    s.lock = some i ∧
      ∃ a, s.actors i = some a ∧ a.Warranted s := by
  rcases hTouches with ⟨a, o, hActor, _, hStage⟩
  have hSound := hInv.sound i a hActor
  unfold Actor.Sound at hSound
  refine ⟨(hInv.guarded i).mp ⟨a, hActor, ?_⟩, a, hActor, ?_⟩
  · cases hAt : a.stage <;> rw [hAt] at hStage <;>
      first | rfl | cases hStage
  · cases hAt : a.stage <;> rw [hAt] at hStage hSound
    case removePid => exact hSound
    case writePid => exact hSound.1
    all_goals cases hStage

/- Two processes do not start sidecars at once. -/
theorem Inv.spawning_unique
    {j : Nat} {b : Actor}
    (hInv : s.Inv)
    (hFirst : s.actors i = some a)
    (hSecond : s.actors j = some b)
    (hSpawning : a.stage.spawning = true)
    (hSpawning' : b.stage.spawning = true) :
    i = j := by
  have hLocked :
      ∀ stage : Stage, stage.spawning = true →
        stage.locked = true := by
    intro stage h
    cases stage <;> first | rfl | cases h
  exact hInv.guarded.unique ⟨a, hFirst, hLocked _ hSpawning⟩
    ⟨b, hSecond, hLocked _ hSpawning'⟩

end Directory

/-
  A step that removes or overwrites the PID file is made with
  the lock held and with a warrant, nothing else changes the
  file, and one process at most is between its decision to
  spawn and the record of its child.
-/
theorem sidecar_unrecorded
    {s t : Directory} {e : Event}
    (hReach : machine.Reachable s)
    (hNext : s.next e = some t) :
    (t.pidFile ≠ s.pidFile → ∃ i, s.Touches e i) ∧
      (∀ i, s.Touches e i →
        s.lock = some i ∧
          ∃ a, s.actors i = some a ∧ a.Warranted s) ∧
        ∀ i j a b, s.actors i = some a →
          s.actors j = some b → a.stage.spawning = true →
            b.stage.spawning = true → i = j := by
  have hInv := Directory.inv_of_reachable hReach
  refine ⟨Directory.touches_of_pidFile_ne hNext,
    fun i hTouches => hInv.warranted_of_touches hTouches, ?_⟩
  intro i j a b hFirst hSecond hSpawning hSpawning'
  exact hInv.spawning_unique hFirst hSecond hSpawning
    hSpawning'

/- An empty directory. -/
def Directory.empty : Directory where
  pidFile := none
  portFile := none
  lock := none
  alive _ := false
  nextPid := 1
  actors _ := none
  time := 0
  records := []

/- A directory with no files. -/
theorem Directory.initial_empty : Directory.empty.Initial where
  lock := rfl
  actors _ := rfl
  named pid h := by cases h
  records := rfl

/-
  One process records its child, and another one that takes
  the child for something else is about to replace it.
-/
theorem sidecar_unrecorded_replaced :
    ∃ s : Directory, s.pidFile = some (some 1) ∧
      s.alive 1 = true ∧ s.lock = some 1 ∧
        ∃ a, s.actors 1 = some a ∧ a.Warranted s := by
  let wrapper : Outcome := .failed "not qdrant"
  let events : List Event :=
    .begin 0 6334 .killOnDrop ::
      (List.replicate 5 (.act 0 .ok) ++
        .begin 1 6334 .killOnDrop ::
          (List.replicate 3 (.act 1 .ok) ++
            List.replicate 2 (.act 1 wrapper) ++
              List.replicate 2 (.act 1 .ok)))
  rcases run_of_any Directory.empty events
    (fun s =>
      decide (s.pidFile = some (some 1)) && s.alive 1 &&
        (s.actors 1).any (fun a => a.stage.touches) &&
          (s.next (.act 1 .ok)).isSome)
    (by decide +kernel) with ⟨s, hRun, hTest⟩
  simp only [Bool.and_eq_true, decide_eq_true_eq] at hTest
  rcases hTest with ⟨⟨⟨hFile, hAlive⟩, hAny⟩, hSome⟩
  rcases (Option.any_eq_true _ _).mp hAny with
    ⟨a, hActor, hStage⟩
  rcases Option.isSome_iff_exists.mp hSome with ⟨t, hNext⟩
  exact ⟨s, hFile, hAlive,
    (sidecar_unrecorded
      ⟨_, _, Directory.initial_empty, hRun⟩ hNext).2.1 1
        ⟨a, .ok, hActor, rfl, hStage⟩⟩

end Sidecar

end Store

end Ferrex
