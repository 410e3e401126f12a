import ModelProxy.CrashPrograms

/-! # The self-update of a node

A self-replace update puts a new build in place of the live binary and keeps the old one as a
rollback copy.  The installer, the dead-man, the confirming build and a starting relay share a
record (`state.json`) and a few files beside the binary, and each holds the update lock while
it works.  Every one of them is a `Program` over the file operations it performs, in the order
of the source.

The store (`Disk`) holds the bytes of each file and the record.  Any operation may fail.  A
save that fails may have reached the disk.  A copy writes its file in two steps, so a crash
between them leaves half of it; and it writes *through* a name that is already there, to every
other link of that file.

A record remembers the two builds of its update (`base` and `target`).  No program reads them:
they only let us speak of the old and the new build.
-/
namespace ModelProxy.SelfUpdate

/-! ## The record -/

/-- Where an update is. -/
inductive Lifecycle where
  | armed
  | swapped
  | rollingBack
  | confirmed (reported : Bool)
  | rolledBack (restartPending reported : Bool)
  | failed (reported : Bool)
  deriving DecidableEq, Repr

namespace Lifecycle

/-- Not ended yet. -/
def inProgress : Lifecycle → Bool
  | armed | swapped | rollingBack => true
  | _ => false

/-- A recovery owner may still have to act. -/
def needsRecovery : Lifecycle → Bool
  | rolledBack true _ => true
  | l => l.inProgress

/-- For an ended update, whether the server stored its end. -/
def reported : Lifecycle → Option Bool
  | confirmed r | rolledBack _ r | failed r => some r
  | _ => none

/-- The moves the sequence allows. -/
def canMoveTo : Lifecycle → Lifecycle → Bool
  | armed, swapped | armed, failed false => true
  | swapped, confirmed false | swapped, rollingBack | swapped, failed false => true
  | rollingBack, swapped | rollingBack, rolledBack _ false => true
  | confirmed false, confirmed true | failed false, failed true => true
  | rolledBack wasPending wasReported, rolledBack pending reported =>
    -- one mark at a time
    (wasPending && !pending && wasReported == reported) ||
      (!wasReported && reported && wasPending == pending)
  | _, _ => false

end Lifecycle

/-- Who asked for the update. -/
inductive Origin where
  | server
  | cli
  deriving DecidableEq, Repr

variable {B H V : Type}

/-- The record of an update; `recovery` says whether a dead-man's program is recorded. -/
structure Record (B H V : Type) where
  base : B
  target : B
  updateId : String
  origin : Origin
  toVersion : V
  toSha256 : Option H
  recovery : Bool
  rollbackAfterSecs : ℕ
  deadline : ℕ
  deadmanAt : Option ℕ
  attempts : ℕ
  lifecycle : Lifecycle
  deriving DecidableEq

namespace Record

/-- The update is not over. -/
def inProgress (r : Record B H V) : Bool := r.lifecycle.inProgress

/-- A start has to look after the update. -/
def needsRecovery (r : Record B H V) : Bool := r.lifecycle.needsRecovery

/-- The record at the next stage, where that is allowed. -/
def moveTo (r : Record B H V) (next : Lifecycle) : Option (Record B H V) :=
  if r.lifecycle.canMoveTo next then some { r with lifecycle := next } else none

/-- The new build is in place. -/
def swap (r : Record B H V) := r.moveTo .swapped

/-- The new build has started well. -/
def confirm (r : Record B H V) := r.moveTo (.confirmed false)

/-- The update has ended without a swap. -/
def fail (r : Record B H V) := r.moveTo (.failed false)

/-- The old build is being put back. -/
def beginRollback (r : Record B H V) := r.moveTo .rollingBack

/-- The old build is back. -/
def finishRollback (r : Record B H V) (restartPending : Bool) :=
  r.moveTo (.rolledBack restartPending false)

/-- A decided rollback that restored nothing goes back to `swapped`. -/
def abandonRollback (r : Record B H V) : Record B H V :=
  if r.lifecycle = .rollingBack then { r with lifecycle := .swapped } else r

/-- The relay restarted into the restored build; `none` when no restart was pending. -/
def restartDone (r : Record B H V) : Option (Record B H V) :=
  match r.lifecycle with
  | .rolledBack true reported => r.moveTo (.rolledBack false reported)
  | _ => none

/-- The server has not been told how the update ended. -/
def needsReport (r : Record B H V) : Bool :=
  r.origin == .server && r.lifecycle.reported == some false

/-- The server stored how the update ended; `none` when that was not owed. -/
def markReported (r : Record B H V) : Option (Record B H V) :=
  if r.needsReport then
    match r.lifecycle with
    | .confirmed _ => r.moveTo (.confirmed true)
    | .failed _ => r.moveTo (.failed true)
    | .rolledBack pending _ => r.moveTo (.rolledBack pending true)
    | _ => none
  else none

/-- Whether the running build is this update's: by its hash, or by its version where either
hash is unknown. -/
def isNewBuild [DecidableEq H] [DecidableEq V] (r : Record B H V) (version : V)
    (sha256 : Option H) : Bool :=
  match r.toSha256, sha256 with
  | some expected, some actual => expected = actual
  | _, _ => r.toVersion = version

end Record

/-! ## The disk -/

/-- The files an update touches: `staged` is the unpacked build, `recovery id` the dead-man's
own program. -/
inductive Path where
  | live
  | new
  | prev
  | failed
  | staged
  | recovery (id : String)
  deriving DecidableEq, Repr

/-- The bytes of each file, and the record. -/
structure Disk (B H V : Type) where
  files : Path → Option B
  record : Option (Record B H V)

/-- A file with this content, or none. -/
def Disk.put (s : Disk B H V) (p : Path) (content : Option B) : Disk B H V :=
  { s with files := Function.update s.files p content }

/-- What a program asks of the rest of the machine. -/
inductive Question where
  /-- The build's mode could be set. -/
  | executable
  /-- No dead-man job is registered (and the scheduler could tell). -/
  | noJob
  /-- The job's time passed while nothing ran it. -/
  | jobMissed
  /-- The dead-man was armed. -/
  | armed
  /-- The update may still go on. -/
  | proceed
  deriving DecidableEq, Repr

/-- The operations of the updater. -/
inductive Op (B H V : Type) where
  | load
  | save (r : Record B H V)
  | present (p : Path)
  | hash (p : Path)
  | remove (p : Path)
  | rename (source dest : Path)
  | link (source dest : Path)
  /-- A copy opens both files and truncates `dest`. -/
  | create (source dest : Path)
  /-- The copy's bytes are written and synced. -/
  | fill (source dest : Path)
  /-- Download, verify, unpack and test-run the build `target`, and be idle. -/
  | fetch (target : B)
  /-- Remove every dead-man's program but that of `keep`. -/
  | clearRecovery (keep : Option String)
  | ask (q : Question)

/-- What an operation answers. -/
def Reply : Op B H V → Type
  | .load => Option (Record B H V)
  | .hash _ => Option H
  | _ => Bool

/-- A file operation that fails changes nothing. -/
def FailsOr (s s' : Disk B H V) (ok : Bool) (succeeds : Prop) : Prop :=
  ok = true ∧ succeeds ∨ ok = false ∧ s' = s

/-- What each operation may answer and leave. -/
def step (sha : B → H) (s : Disk B H V) : (op : Op B H V) → Reply op → Disk B H V → Prop
  | .load, reply, s' => reply = s.record ∧ s' = s
  | .save r, ok, s' => s' = { s with record := some r } ∨ ok = false ∧ s' = s
  | .present p, found, s' => found = (s.files p).isSome ∧ s' = s
  | .hash p, reply, s' => (reply = none ∨ reply = (s.files p).map sha) ∧ s' = s
  | .remove p, ok, s' => FailsOr s s' ok (s' = s.put p none)
  | .rename source dest, ok, s' => FailsOr s s' ok <| ∃ b, s.files source = some b ∧
      -- two links of one file: the rename succeeds and both stay
      (s' = (s.put dest (some b)).put source none ∨ s.files dest = some b ∧ s' = s)
  | .link source dest, ok, s' => FailsOr s s' ok <|
      s.files dest = none ∧ ∃ b, s.files source = some b ∧ s' = s.put dest (some b)
  | .create source dest, ok, s' => FailsOr s s' ok <| s.files source ≠ none ∧
      -- a file that is there is truncated under all its names
      if s.files dest = none then ∃ junk, s' = s.put dest (some junk)
      else s'.record = s.record ∧ ∀ p, s.files p ≠ s.files dest → s'.files p = s.files p
  | .fill source dest, ok, s' =>
    ok = true ∧ s' = s.put dest (s.files source) ∨
      ok = false ∧ ∃ junk, s' = s.put dest (some junk)
  | .fetch target, ok, s' => ∃ content, s' = s.put .staged content ∧
      (ok = true → content = some target)
  | .clearRecovery keep, _, s' => s'.record = s.record ∧ ∀ p, s'.files p = s.files p ∨
      ∃ id, p = .recovery id ∧ keep ≠ some id ∧ s'.files p = none
  | .ask _, _, s' => s' = s

/-- The disk without the dead-man programs other than that of `keep`. -/
def Disk.swept (s : Disk B H V) (keep : Option String) : Disk B H V :=
  { s with files := fun p => match p with
      | .recovery id => if keep = some id then s.files (.recovery id) else none
      | p => s.files p }

/-- The answers of working storage, where the machine replies `replies` to what it is asked. -/
def answer (sha : B → H) (replies : Question → Bool) (s : Disk B H V) :
    (op : Op B H V) → Reply op × Disk B H V
  | .load => (s.record, s)
  | .save r => (true, { s with record := some r })
  | .present p => ((s.files p).isSome, s)
  | .hash p => ((s.files p).map sha, s)
  | .remove p => (true, s.put p none)
  | .rename source dest =>
    match s.files source with
    | some b => (true, (s.put dest (some b)).put source none)
    | none => (false, s)
  | .link source dest | .create source dest =>
    match s.files source, s.files dest with
    | some b, none => (true, s.put dest (some b))
    | _, _ => (false, s)
  | .fill source dest => (true, s.put dest (s.files source))
  | .fetch target => (true, s.put .staged (some target))
  | .clearRecovery keep => (true, s.swept keep)
  | .ask q => (replies q, s)

/-- The host's answers are steps of the disk. -/
theorem answer_step (sha : B → H) (replies : Question → Bool) (s : Disk B H V)
    (op : Op B H V) : step sha s op (answer sha replies s op).1 (answer sha replies s op).2 := by
  cases op with
  | load | present => exact ⟨rfl, rfl⟩
  | save => exact .inl rfl
  | hash => exact ⟨.inr rfl, rfl⟩
  | remove => exact .inl ⟨rfl, rfl⟩
  | rename src dest =>
    simp only [answer]
    cases hb : s.files src with
    | none => exact .inr ⟨rfl, rfl⟩
    | some b => exact .inl ⟨rfl, b, hb, .inl rfl⟩
  | link src dest =>
    simp only [answer]
    split
    · rename_i b hb hfr
      exact .inl ⟨rfl, hfr, b, hb, rfl⟩
    · exact .inr ⟨rfl, rfl⟩
  | create src dest =>
    simp only [answer]
    split
    · rename_i b hb hfr
      refine .inl ⟨rfl, by rw [hb]; nofun, ?_⟩
      rw [if_pos hfr]
      exact ⟨b, rfl⟩
    · exact .inr ⟨rfl, rfl⟩
  | fill => exact .inl ⟨rfl, rfl⟩
  | fetch => exact ⟨_, rfl, fun _ => rfl⟩
  | clearRecovery keep =>
    refine ⟨rfl, fun p => ?_⟩
    cases p with
    | recovery id =>
      by_cases hke : keep = some id
      · exact .inl (if_pos hke)
      · exact .inr ⟨id, rfl, hke, if_neg hke⟩
    | _ => exact .inl rfl
  | ask => exact rfl

/-! ## The file operations of an update -/

/-- A program of the updater. -/
abbrev Prog (B H V : Type) := Program (Op B H V) Reply

-- Each operation as a program.
def load : Prog B H V (Option (Record B H V)) := .act .load .done
def save (r : Record B H V) : Prog B H V Bool := .act (.save r) .done
def present (p : Path) : Prog B H V Bool := .act (.present p) .done
def sha256File (p : Path) : Prog B H V (Option H) := .act (.hash p) .done
def remove (p : Path) : Prog B H V Bool := .act (.remove p) .done
def rename (source dest : Path) : Prog B H V Bool := .act (.rename source dest) .done
def link (source dest : Path) : Prog B H V Bool := .act (.link source dest) .done
def create (source dest : Path) : Prog B H V Bool := .act (.create source dest) .done
def fill (source dest : Path) : Prog B H V Bool := .act (.fill source dest) .done
def fetch (target : B) : Prog B H V Bool := .act (.fetch target) .done
def clearRecovery (keep : Option String) : Prog B H V Bool := .act (.clearRecovery keep) .done
def ask (q : Question) : Prog B H V Bool := .act (.ask q) .done

/-- A copy: the file is created, then filled. -/
def copyFile (source dest : Path) : Prog B H V Bool := do
  if ← create source dest then fill source dest else return false

/-- A hard link, or a copy where linking fails. -/
def linkOrCopy (source dest : Path) : Prog B H V Bool := do
  if ← link source dest then return true else copyFile source dest

/-- Move the verified build to `wsmp.new`. -/
def stageNew : Prog B H V Bool := do
  if ← remove .new then
    if ← rename .staged .new then ask .executable else return false
  else return false

/-- Write the rollback copy. -/
def preparePrev : Prog B H V Bool := do
  if ← remove .prev then linkOrCopy .live .prev else return false

/-- Whether the dead-man's program is a copy of the rollback copy. -/
def verifyRecovery [DecidableEq H] (id : String) : Prog B H V Bool := do
  if ← present (.recovery id) then
    match ← sha256File (.recovery id), ← sha256File .prev with
    | some program, some copy => return program = copy
    | _, _ => return false
  else return false

/-- Write the dead-man's own program. -/
def prepareRecovery [DecidableEq H] (id : String) : Prog B H V Bool := do
  if ← remove (.recovery id) then
    if ← linkOrCopy .prev (.recovery id) then
      if ← verifyRecovery id then return true
      else
        let _ ← remove (.recovery id)
        return false
    else return false
  else return false

/-- Put the restored binary where an earlier build's rollback job runs it. -/
def relinkProgram : Prog B H V Unit := do
  if ← present .prev then return ()
  else
    let _ ← linkOrCopy .live .prev
    return ()

/-- The live (failed) build to `wsmp.failed`, as far as that works. -/
def keepFailed : Prog B H V Unit := do
  if ← present .live then
    let _ ← linkOrCopy .live .failed
    return ()
  else return ()

/-- The live build kept as failed, and the rollback copy back to the live path; `some false`
when there is no rollback copy. -/
def restore : Prog B H V (Option Bool) := do
  if ← present .prev then
    if ← remove .failed then
      keepFailed
      if ← rename .prev .live then return some true else return none
    else return none
  else return some false

/-- Whether the swap began: it takes `wsmp.new` away. -/
def swapBegan : Prog B H V Bool := do
  if ← present .new then
    let live ← present .live
    return !live
  else return true

/-- The dead-man's program that the record still needs. -/
def Record.kept (r : Record B H V) : Option String :=
  if r.needsRecovery && r.recovery then some r.updateId else none

/-- Remove the dead-man programs that no job can run any more. -/
def sweepRecovery (service : Bool) : Prog B H V Unit := do
  let unowned ← if service then ask .noJob else pure true
  if unowned then
    let current ← load
    let _ ← clearRecovery (current.bind Record.kept)
    return ()
  else return ()

/-! ## Installing -/

/-- What to install, and on which machine: `service` is whether a scheduler is there. -/
structure Request (B V : Type) where
  base : B
  target : B
  updateId : String
  origin : Origin
  version : V
  rollbackAfterSecs : ℕ
  service : Bool
  now : ℕ

/-- How an install ended. -/
inductive Ended where
  | swapped
  | stopped
  deriving DecidableEq, Repr

/-- A terminal state is written up to so often. -/
def saveTerminal : ℕ → Record B H V → Prog B H V Bool
  | 0, _ => return false
  | attempts + 1, r => do if ← save r then return true else saveTerminal attempts r

/-- TERMINAL_SAVE_ATTEMPTS -/
def terminalSaveAttempts : ℕ := 4

/-- End the update: the old binary is in place. -/
def endUpdate (r : Record B H V) : Prog B H V Ended :=
  match r.fail with
  | some ended => do
      let _ ← saveTerminal terminalSaveAttempts ended
      return .stopped
  | none => return .stopped

/-- The record an install begins with. -/
def Request.armed (request : Request B V) (sha256 : H) : Record B H V :=
  { base := request.base
    target := request.target
    updateId := request.updateId
    origin := request.origin
    toVersion := request.version
    toSha256 := some sha256
    recovery := request.service
    rollbackAfterSecs := request.rollbackAfterSecs
    deadline := request.now + request.rollbackAfterSecs
    deadmanAt := if request.service then some (request.now + request.rollbackAfterSecs) else none
    attempts := 0
    lifecycle := .armed }

/-- The swap, and what follows when it fails or cannot be recorded. -/
def swapFiles (current : Record B H V) : Prog B H V Ended := do
  if ← rename .new .live then
    match current.swap with
    | some swapped =>
      -- the new binary treats an `armed` record for its own build as swapped
      let _ ← save swapped
      return .swapped
    | none => return .swapped
  else
    if ← swapBegan then return .stopped else endUpdate current

/-- From the armed record on. -/
def armAndSwap (request : Request B V) (current : Record B H V) : Prog B H V Ended := do
  let armed ← if request.service then ask .armed else pure true
  if armed then
    if ← ask .proceed then swapFiles current else endUpdate current
  else endUpdate current

/-- The files of an update, up to the swap. -/
def installFiles [DecidableEq H] (request : Request B V) : Prog B H V Ended := do
  if ← fetch request.target then
    if ← stageNew then
      if ← preparePrev then
        let recovered ← if request.service then prepareRecovery request.updateId else pure true
        if recovered then
          match ← sha256File .new with
          | some sha256 =>
            let current := request.armed sha256
            if ← save current then armAndSwap request current else return .stopped
          | none => return .stopped
        else return .stopped
      else return .stopped
    else return .stopped
  else return .stopped

/-- Whether nothing durable still names the update as in progress. -/
def settled (id : String) : Prog B H V Bool := do
  match ← load with
  | some r => return r.updateId ≠ id || !r.inProgress
  | none => return true

/-- Remove what an update left that nothing needs. -/
def clean : Prog B H V Unit := do
  let _ ← remove .staged
  let _ ← remove .new
  return ()

/-- What an install leaves behind it.  While the update is still recorded in progress,
`wsmp.new` and the rollback copy are the dead-man's evidence: only staging goes. -/
def tidy (request : Request B V) (ended : Ended) : Prog B H V Unit := do
  let settles ← match ended with
    | .stopped => settled request.updateId
    | .swapped => pure false
  if settles then
    clean
    sweepRecovery request.service
  else
    let _ ← remove .staged
    return ()

/-- An update from its request on. -/
def selfReplace [DecidableEq H] (request : Request B V) : Prog B H V Ended := do
  sweepRecovery request.service
  let ended ← installFiles request
  tidy request ended
  return ended

/-- An update abandoned before its swap, with no job to finish it, is recorded failed. -/
def settleAbandoned (service : Bool) : Prog B H V Unit := do
  match ← load with
  | some r =>
    if r.lifecycle = .armed then
      if ← swapBegan then return ()
      else
        let unowned ← if service then ask .noJob else pure true
        if unowned then
          match r.fail with
          | some ended => if ← save ended then clean else return ()
          | none => return ()
        else return ()
    else return ()
  | none => return ()

/-- Without a service nothing restarts or rolls back: the update is done. -/
def settleWithoutService : Prog B H V Unit := do
  match ← load with
  | some r =>
    if r.lifecycle = .swapped then
      match r.confirm with
      | some done =>
        let _ ← save done
        return ()
      | none => return ()
    else return ()
  | none => return ()

/-- An update attempt under the lock, by the relay's worker or (`cli`) by a person. -/
def install [DecidableEq H] (request : Request B V) (cli : Bool) : Prog B H V Unit := do
  settleAbandoned request.service
  let current ← load
  if current.any (·.inProgress) then return ()
  else
    match ← selfReplace request with
    | .swapped => if cli && !request.service then settleWithoutService else return ()
    | .stopped => return ()

/-! ## Rolling back -/

/-- With the rollback decided and its copy gone: whether the restore already ran. -/
def restoreCompleted [DecidableEq H] (r : Record B H V) : Prog B H V (Option Bool) :=
  match r.toSha256 with
  | none => return some true
  | some new => do
      match ← sha256File .live with
      | some actual => return some (actual ≠ new)
      | none => return none

/-- How a durable restore went. -/
inductive Restored where
  | done
  | noCopy
  deriving DecidableEq, Repr

/-- The restore itself, once the decision is recorded. -/
def finishRestore [DecidableEq H] (copy : Bool) (r : Record B H V) :
    Prog B H V (Option (Record B H V × Restored)) := do
  let restoredNow ← if copy then restore else pure (some false)
  match restoredNow with
  | none => return none
  | some true => return some (r, .done)
  | some false =>
    match ← restoreCompleted r with
    | none => return none
    | some true => return some (r, .done)
    | some false => return some (r.abandonRollback, .noCopy)

/-- Put the rollback copy back: the decision is saved before the copy is consumed. -/
def restoreDurably [DecidableEq H] (r : Record B H V) :
    Prog B H V (Option (Record B H V × Restored)) := do
  let copy ← present .prev
  if r.lifecycle = .rollingBack then finishRestore copy r
  else if copy then
    match r.beginRollback with
    | some next => if ← save next then finishRestore copy next else return none
    | none => return none
  else return some (r, .noCopy)

/-- How the dead-man's look ended. -/
inductive Rollback where
  | notOurs
  | settled
  | notDue
  | neverSwapped
  | noCopy
  | rolledBack
  | error
  deriving DecidableEq, Repr

/-- When an unconfirmed update is rolled back: a full window after a reboot. -/
def Record.due (r : Record B H V) (bootedAt : Option ℕ) : ℕ :=
  match bootedAt with
  | some boot =>
    if r.deadline - r.rollbackAfterSecs < boot then max r.deadline (boot + r.rollbackAfterSecs)
    else r.deadline
  | none => r.deadline

/-- The rollback of an update that is due and may have been swapped in. -/
def rollBackNow [DecidableEq H] (r : Record B H V) : Prog B H V Rollback := do
  match ← restoreDurably r with
  | none => return .error
  | some (current, .noCopy) =>
    match current.fail with
    | some ended => if ← save ended then return .noCopy else return .error
    | none => return .error
  | some (current, .done) =>
    match current.finishRollback true with
    | some ended =>
      if ← save ended then
        if ended.recovery then return .rolledBack
        else
          relinkProgram
          return .rolledBack
      else return .error
    | none => return .error

/-- The dead-man's check. -/
def rollbackIfUnconfirmed [DecidableEq H] (id : String) (now : ℕ) (bootedAt : Option ℕ) :
    Prog B H V Rollback := do
  match ← load with
  | none => return .notOurs
  | some r =>
    if r.updateId ≠ id then return .notOurs
    else if !r.inProgress then return .settled
    -- a rollback already decided is finished now, whatever the deadline says
    else if r.lifecycle ≠ .rollingBack ∧ now + 1 < r.due bootedAt then return .notDue
    else if r.lifecycle = .armed then
      if ← swapBegan then
        match r.swap with
        | some swapped => rollBackNow swapped
        | none => return .error
      else
        match r.fail with
        | some ended =>
          if ← save ended then
            let _ ← remove .new
            return .neverSwapped
          else return .error
        | none => return .error
    else rollBackNow r

/-- The relay restarted into the restored build. -/
def restartDone (id : String) : Prog B H V Unit := do
  match ← load with
  | some r =>
    if r.updateId = id then
      match r.restartDone with
      | some next =>
        let _ ← save next
        return ()
      | none => return ()
    else return ()
  | none => return ()

/-- The dead-man removed its job: its program goes too. -/
def jobRemoved (id : String) : Prog B H V Unit := do
  match ← load with
  | some r =>
    if r.updateId ≠ id || r.needsRecovery then return ()
    else if r.recovery then
      let _ ← remove (.recovery id)
      return ()
    else
      match r.lifecycle with
      | .rolledBack _ _ =>
        let _ ← remove .prev
        return ()
      | _ => return ()
  | none => return ()

/-! ## Confirming and starting -/

/-- Record `confirmed` once the installed binary is this update's build. -/
def certify [DecidableEq H] (r : Record B H V) (service : Bool) : Prog B H V Unit := do
  let isNew ← match r.toSha256 with
    | some expected => do
        let actual ← sha256File .live
        pure (actual = some expected : Bool)
    | none => pure true
  if isNew then
    match r.confirm with
    | some done => if ← save done then sweepRecovery service else return ()
    | none => return ()
  else return ()

/-- The new build of `id` has met every condition. -/
def confirm [DecidableEq H] (id : String) (service : Bool) : Prog B H V Unit := do
  match ← load with
  | none => return ()
  | some r =>
    if r.updateId ≠ id then return ()
    else
      match r.lifecycle with
      | .armed =>
        match r.swap with
        | some swapped => certify swapped service
        | none => return ()
      | .swapped => certify r service
      | _ => return ()

/-- The build that starts, and whether it could read its own binary. -/
structure Running (B : Type) where
  build : B
  readable : Bool

section Start
variable [DecidableEq H] [DecidableEq V] (sha : B → H) (version : B → V)

/-- Whether the starting build is the recorded update's. -/
def Running.isNew (running : Running B) (r : Record B H V) : Bool :=
  r.isNewBuild (version running.build)
    (if running.readable then some (sha running.build) else none)

/-- Save an end and sweep. -/
def recordEnd (r : Option (Record B H V)) (service : Bool) : Prog B H V Unit :=
  match r with
  | some ended => do if ← save ended then sweepRecovery service else return ()
  | none => return ()

/-- The dead-man's job went missing, or its time passed. -/
def deadmanLost (r : Record B H V) (now : ℕ) : Prog B H V Bool := do
  if ← ask .noJob then return true
  else if r.deadmanAt.any (· ≤ now) then ask .jobMissed
  else return false

/-- Make sure the recorded dead-man's program is there. -/
def ensureRecovery (r : Record B H V) : Prog B H V Bool := do
  let verified ← if r.recovery then verifyRecovery r.updateId else pure false
  if verified then return true else prepareRecovery r.updateId

/-- Arm a lost dead-man again: the record names its program and time as far as that went. -/
def rearm (r : Record B H V) : Prog B H V (Record B H V) := do
  if ← ensureRecovery r then
    if ← ask .armed then return { r with recovery := true, deadmanAt := some r.deadline }
    else return { r with recovery := true }
  else return r

/-- A new build's start that goes on: a full window from now, the dead-man armed again. -/
def awaitConfirm (r : Record B H V) (service : Bool) (maxStarts now : ℕ) : Prog B H V Unit := do
  let r := { r with deadline := max r.deadline (now + r.rollbackAfterSecs) }
  let lost ← if service && decide (r.attempts ≤ maxStarts) then deadmanLost r now else pure false
  let rearmed ← if lost then rearm r else pure r
  let _ ← save rearmed
  return ()

/-- A start of the new build. -/
def startNew (r : Record B H V) (service : Bool) (maxStarts now : ℕ) : Prog B H V Unit := do
  let r := { r with attempts := r.attempts + 1 }
  if r.attempts > maxStarts then
    match ← restoreDurably r with
    | none => return ()
    | some (current, .done) => recordEnd (current.finishRollback false) service
    | some (current, .noCopy) => awaitConfirm current service maxStarts now
  else awaitConfirm r service maxStarts now

/-- A start of another build than the new one: the swap did not happen or did not take. -/
def startOther (r : Record B H V) (service : Bool) : Prog B H V Unit := do
  if r.lifecycle = .armed then
    if ← swapBegan then recordEnd r.fail service
    else
      let _ ← remove .new
      recordEnd r.fail service
  else recordEnd r.fail service

/-- A start with no decided rollback on record. -/
def startUndecided (running : Running B) (r : Record B H V) (service : Bool)
    (maxStarts now : ℕ) : Prog B H V Unit :=
  if running.isNew sha version r then
    if r.lifecycle = .armed then
      match r.swap with
      | some swapped => startNew swapped service maxStarts now
      | none => return ()
    else startNew r service maxStarts now
  else startOther r service

/-- What a starting relay does about the record. -/
def onStart (running : Running B) (service : Bool) (maxStarts now : ℕ) : Prog B H V Unit := do
  match ← load with
  | none => return ()
  | some r =>
    if !r.inProgress then sweepRecovery service
    else if r.lifecycle = .rollingBack then
      match ← restoreDurably r with
      | none => return ()
      | some (current, .done) => recordEnd (current.finishRollback false) service
      | some (current, .noCopy) =>
        if ← save current then startUndecided sha version running current service maxStarts now
        else return ()
    else startUndecided sha version running r service maxStarts now

/-! ## Calls -/

/-- What runs under the update lock. -/
inductive Call (B V : Type) where
  | install (request : Request B V) (cli : Bool)
  | deadman (id : String) (now : ℕ) (bootedAt : Option ℕ)
  | restarted (id : String)
  | jobRemoved (id : String)
  | confirm (id : String) (service : Bool)
  | start (running : Running B) (service : Bool) (maxStarts now : ℕ)
  | acked (id : String)

/-- The server stored how the update ended. -/
def acked (id : String) : Prog B H V Unit := do
  match ← load with
  | some r =>
    if r.updateId = id then
      match r.markReported with
      | some next =>
        let _ ← save next
        return ()
      | none => return ()
    else return ()
  | none => return ()

/-- The program a call runs. -/
def Call.program : Call B V → Prog B H V Unit
  | install request cli => SelfUpdate.install request cli
  | deadman id now bootedAt => do
      let _ ← rollbackIfUnconfirmed id now bootedAt
      return ()
  | restarted id => restartDone id
  | jobRemoved id => SelfUpdate.jobRemoved id
  | confirm id service => SelfUpdate.confirm id service
  | start running service maxStarts now => onStart sha version running service maxStarts now
  | acked id => SelfUpdate.acked id

/-- An install replaces the live build by one of another hash, of the version asked for, under
an id of its own; everything else may be called at any time. -/
def Allowed (s : Disk B H V) : Call B V → Prop
  | .install request _ => s.files .live = some request.base ∧
      sha request.base ≠ sha request.target ∧ version request.target = request.version ∧
      ∀ r, s.record = some r → r.updateId ≠ request.updateId
  | _ => True

end Start

end ModelProxy.SelfUpdate
