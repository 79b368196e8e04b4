import Chipbox.Foundation.Run

/-! Blocks of writes to the Realm: who begins a transaction, who commits it and what a body that
throws leaves behind. -/
namespace Chipbox.Library
variable {W : Type}

/-- A Realm instance: what is committed, and what the open transaction has written. -/
structure Realm (W : Type) where
  committed : List W
  isInTransaction : Bool
  pending : List W
  deriving DecidableEq, Repr

inductive Outcome
  | returned | threw
  deriving DecidableEq, Repr

namespace Realm

def beginTransaction (r : Realm W) : Realm W := {r with isInTransaction := true, pending := []}

def commitTransaction (r : Realm W) : Realm W := ⟨r.committed ++ r.pending,false,[]⟩

def write (r : Realm W) (w : W) : Outcome × Realm W :=
  if r.isInTransaction then (.returned,{r with pending := r.pending ++ [w]}) else (.threw,r)

/-- `close`, which discards an open transaction. -/
def close (r : Realm W) : Realm W := ⟨r.committed,false,[]⟩

/-- The text that `getFromTransaction` and `inTransaction` share. -/
def transaction (func : Realm W → Outcome × Realm W) (r : Realm W) : Outcome × Realm W :=
  let wasInTransactionBefore := !r.isInTransaction
  let r := if wasInTransactionBefore then r.beginTransaction else r
  match func r with
  | (.threw,r) => (.threw,r)
  | (.returned,r) => (.returned,if wasInTransactionBefore then r.commitTransaction else r)

def getFromTransaction (func : Realm W → Outcome × Realm W) (r : Realm W) : Outcome × Realm W :=
  transaction func r

def inTransaction (func : Realm W → Outcome × Realm W) (r : Realm W) : Outcome × Realm W :=
  transaction func r

end Realm

inductive BlockKind
  | getFromTransaction | inTransaction
  deriving DecidableEq, Repr

/-- The body of a block: writes, throws, blocks inside it and parts whose exceptions are caught. -/
inductive Body (W : Type)
  | done
  | write (w : W) (rest : Body W)
  | throw
  | block (kind : BlockKind) (body rest : Body W)
  | attempt (body rest : Body W)
  deriving DecidableEq, Repr

def BlockKind.run (kind : BlockKind) : (Realm W → Outcome × Realm W) → Realm W → Outcome × Realm W :=
  match kind with
  | .getFromTransaction => Realm.getFromTransaction
  | .inTransaction => Realm.inTransaction

namespace Body

def run : Body W → Realm W → Outcome × Realm W
  | .done,r => (.returned,r)
  | .write w rest,r =>
    match r.write w with
    | (.threw,r) => (.threw,r)
    | (.returned,r) => rest.run r
  | .throw,r => (.threw,r)
  | .block kind body rest,r =>
    match kind.run body.run r with
    | (.threw,r) => (.threw,r)
    | (.returned,r) => rest.run r
  | .attempt body rest,r => rest.run (body.run r).2

def throws : Body W → Bool
  | .done => false
  | .write _ rest => rest.throws
  | .throw => true
  | .block _ body rest => body.throws || rest.throws
  | .attempt _ rest => rest.throws

def writes : Body W → List W
  | .done => []
  | .write w rest => w::rest.writes
  | .throw => []
  | .block _ body rest => body.writes ++ if body.throws then [] else rest.writes
  | .attempt body rest => body.writes ++ rest.writes

end Body

theorem BlockKind.run_eq (kind : BlockKind) (func : Realm W → Outcome × Realm W) (r : Realm W) :
    kind.run func r = Realm.transaction func r := by
  cases kind <;> rfl

def Body.outcome (body : Body W) : Outcome := bif body.throws then .threw else .returned

/-- In a transaction a body only adds its writes to it, whatever blocks it has. -/
theorem Body.run_open (body : Body W) (r : Realm W) (opened : r.isInTransaction = true) :
    body.run r = (body.outcome,{r with pending := r.pending ++ body.writes}) := by
  induction body generalizing r with
  | done => simp [run,writes,outcome,throws]
  | write w rest ih =>
    rw [run,Realm.write,if_pos opened]
    dsimp only
    rw [ih {r with pending := r.pending ++ [w]} opened]
    simp [writes,outcome,throws]
  | throw => simp [run,writes,outcome,throws]
  | block kind body rest first second =>
    rw [run,BlockKind.run_eq]
    simp only [Realm.transaction,opened,Bool.not_true,Bool.false_eq_true,if_false]
    rw [first r opened]
    cases fails : body.throws with
    | true => simp [outcome,throws,writes,fails,opened]
    | false =>
      simp only [outcome,fails,cond_false,opened]
      rw [second ⟨r.committed,true,r.pending ++ body.writes⟩ rfl]
      simp [outcome,throws,writes,fails]
  | attempt body rest first second =>
    rw [run,first r opened]
    dsimp only
    rw [second {r with pending := r.pending ++ body.writes} opened]
    simp [outcome,throws,writes]

/-- What the code does to the Realm from outside: an outermost block, whose exception is reported
and survived, or the end of the instance. -/
inductive RealmCall (W : Type)
  | block (kind : BlockKind) (body : Body W)
  | close

namespace Realm

def call (r : Realm W) : RealmCall W → Option (Realm W)
  | .block kind body => some (kind.run body.run r).2
  | .close => some r.close

/-- After an outermost block the Realm is in no transaction, and all that the block wrote is
committed or nothing is. -/
def Atomic (r : Realm W) : RealmCall W → Prop
  | .block kind body =>
    (kind.run body.run r).2.isInTransaction = false ∧
      ((kind.run body.run r).2.committed = r.committed ++ body.writes ∨
        (kind.run body.run r).2.committed = r.committed)
  | .close => True

def Completes (_ : Realm W) : RealmCall W → Prop
  | .block _ body => body.throws = false
  | .close => True

instance (r : Realm W) (made : RealmCall W) : Decidable (r.Completes made) := by
  cases made <;> unfold Completes <;> infer_instance

/-- An outermost block commits its writes, or is left with its transaction open. -/
theorem block_closed (kind : BlockKind) (body : Body W) {r : Realm W} (closed : r.isInTransaction = false) :
    (kind.run body.run r).2 = if body.throws then ⟨r.committed,true,body.writes⟩
      else ⟨r.committed ++ body.writes,false,[]⟩ := by
  rw [BlockKind.run_eq]
  simp only [transaction,closed,Bool.not_false,if_true]
  rw [body.run_open r.beginTransaction rfl]
  cases fails : body.throws with
  | true => simp [Body.outcome,fails,beginTransaction]
  | false => simp [Body.outcome,fails,beginTransaction,commitTransaction]

theorem block_open (kind : BlockKind) (body : Body W) {r : Realm W} (opened : r.isInTransaction = true) :
    (kind.run body.run r).2 = {r with pending := r.pending ++ body.writes} := by
  rw [BlockKind.run_eq]
  simp only [transaction,opened,Bool.not_true,Bool.false_eq_true,if_false]
  rw [body.run_open r opened]
  cases fails : body.throws with
  | true => simp [Body.outcome,fails,opened]
  | false => simp [Body.outcome,fails,opened]

theorem atomic_iff_completes {r : Realm W} (closed : r.isInTransaction = false) (made : RealmCall W) :
    r.Atomic made ↔ r.Completes made := by
  cases made with
  | block kind body =>
    unfold Atomic Completes
    dsimp only
    rw [block_closed kind body closed]
    cases body.throws with
    | true => simp
    | false => simp
  | close => exact Iff.rfl

theorem closed_after {r after : Realm W} {made : RealmCall W} (atomic : r.Atomic made)
    (taken : r.call made = some after) : after.isInTransaction = false := by
  cases made with
  | block kind body => cases taken; exact atomic.1
  | close => cases taken; rfl

/-- Every outermost block of a run is atomic exactly when none of them ends in an exception. -/
theorem blocks_atomic_iff (start : Realm W) (closed : start.isInTransaction = false)
    (calls : List (RealmCall W)) :
    Run.Meets call Atomic start calls ↔ Run.Meets call Completes start calls := by
  constructor
  · intro atomic
    have kept (r : Realm W) (made : RealmCall W) (after : Realm W) (_ : r.isInTransaction = false)
        (held : r.Atomic made) (taken : r.call made = some after) : after.isInTransaction = false :=
      closed_after held taken
    apply Run.meets_of_meets kept _ closed atomic
    intro r made outside held
    exact (atomic_iff_completes outside made).mp held
  · intro completes
    have kept (r : Realm W) (made : RealmCall W) (after : Realm W) (outside : r.isInTransaction = false)
        (held : r.Completes made) (taken : r.call made = some after) : after.isInTransaction = false :=
      closed_after ((atomic_iff_completes outside made).mpr held) taken
    apply Run.meets_of_meets kept _ closed completes
    intro r made outside held
    exact (atomic_iff_completes outside made).mpr held

/-- Until the instance is closed, the blocks after one that threw are lost. -/
theorem lost_after_throw {r finish : Realm W} {blocks : List (BlockKind × Body W)}
    (opened : r.isInTransaction = true)
    (run : Run.exec call r (blocks.map fun made => .block made.1 made.2) = some finish) :
    finish.close.committed = r.committed := by
  induction blocks generalizing r with
  | nil =>
    cases run
    rfl
  | cons made rest ih =>
    obtain ⟨middle,taken,run⟩ := Run.exec_cons.mp run
    unfold call at taken
    dsimp only at taken
    rw [block_open _ _ opened] at taken
    cases taken
    exact @ih ⟨r.committed,r.isInTransaction,r.pending ++ made.2.writes⟩ opened run

def empty : Realm Nat := ⟨[],false,[]⟩

theorem blocks_atomic_iff_nested : Run.Meets call Atomic empty
    [.block .inTransaction (.write 1 (.block .getFromTransaction (.write 2 .done) .done)),.close] := by
  rw [blocks_atomic_iff empty rfl]
  decide

/-- A block that throws after a write leaves its transaction open, and the block after it, which
does not throw, is not committed and lost when the instance is closed. -/
theorem update_lost :
    ¬ Run.Meets call Atomic empty [.block .inTransaction (.write 1 .throw)] ∧
    Run.exec call empty [.block .inTransaction (.write 1 .throw),.block .inTransaction (.write 2 .done),
      .close] = some ⟨[],false,[]⟩ := by
  refine ⟨?_,rfl⟩
  rintro ⟨⟨closed,_⟩,_⟩
  exact absurd closed (by decide)

end Realm
end Chipbox.Library
