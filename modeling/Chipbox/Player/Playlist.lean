import Chipbox.Foundation.Run
import Mathlib.Data.List.Perm.Basic

/-! The playback queue, its shuffled order and the commands that edit them.
Accesses outside a list throw, and a throw leaves behind whatever the command had
already stored. The order chosen by a shuffle is a parameter of the command. -/
namespace Chipbox.Player

/-- `Player.REPEAT_OFF` to `Player.REPEAT_INFINITE`, in the order of their values. -/
inductive RepeatMode
  | off | all | one | infinite
  deriving DecidableEq, Repr

/-- `PlayerActivityPresenter.toggleRepeat`. -/
def RepeatMode.toggleRepeat : RepeatMode → RepeatMode
  | .off => .all
  | .all => .one
  | .one => .off
  | .infinite => .off

inductive ListError
  | indexOutOfBounds
  deriving DecidableEq, Repr

/-- `MutableList.get` at a signed index. -/
def getAt {α : Type} (items : List α) (index : Int) : Except ListError α :=
  if index < 0 then .error .indexOutOfBounds
  else match items[index.toNat]? with
    | none => .error .indexOutOfBounds
    | some item => .ok item

/-- What `Collections.shuffle` may do to a list: any rearrangement of it. -/
structure Shuffler where
  order : List Int → List Int
  perm : ∀ positions, (order positions).Perm positions

structure Playlist (Id : Type) where
  playbackQueuePosition : Int
  actualPlaybackQueuePosition : Int
  shuffledPositionQueue : Option (List Int)
  playbackQueue : List (Option Id)
  playingTrackId : Option Id
  shuffle : Bool
  repeatMode : RepeatMode

namespace Playlist
variable {Id : Type}

def initial : Playlist Id := ⟨0,0,none,[],none,false,.off⟩

/-- The positions `0` to `size - 1`, as `generateRandomPositionArray` lists them. -/
def positions (size : Nat) : List Int := (List.range size).map Int.ofNat

def generateRandomPositionArray (p : Playlist Id) (shuffler : Shuffler) : Playlist Id :=
  {p with shuffledPositionQueue := some (shuffler.order (positions p.playbackQueue.length))}

def setPlaybackQueue (p : Playlist Id) (queue : List (Option Id)) (shuffler : Shuffler) :
    Playlist Id :=
  let replaced := {p with playbackQueue := queue}
  if replaced.shuffle then replaced.generateRandomPositionArray shuffler else replaced

def setShuffle (p : Playlist Id) (value : Bool) (shuffler : Shuffler) :
    Except ListError Unit × Playlist Id :=
  if value then (.ok (),{p.generateRandomPositionArray shuffler with shuffle := true})
  else
    let position : Except ListError Int := match p.shuffledPositionQueue with
      | none => .ok 0
      | some queue => getAt queue p.playbackQueuePosition
    match position with
    | .error error => (.error error,p)
    | .ok position => (.ok (),{p with
        playbackQueuePosition := position, shuffledPositionQueue := none, shuffle := false})

def isNextTrackAvailable (p : Playlist Id) : Bool :=
  p.playbackQueuePosition < (p.playbackQueue.length : Int) - 1 || p.repeatMode != .off

def getTrackIdAt (p : Playlist Id) (position : Int) (ignoreShuffle : Bool) :
    Except ListError (Option Id) × Playlist Id :=
  if position > p.playbackQueue.length then (.ok none,p)
  else
    let actualPosition : Except ListError Int := if p.shuffle && !ignoreShuffle then
        match p.shuffledPositionQueue with
        | none => .ok 0
        | some queue => getAt queue position
      else .ok position
    match actualPosition with
    | .error error => (.error error,p)
    | .ok actualPosition => (getAt p.playbackQueue actualPosition,
        {p with actualPlaybackQueuePosition := actualPosition})

def getNextTrack (p : Playlist Id) : Except ListError (Option Id) × Playlist Id :=
  if p.playbackQueuePosition < (p.playbackQueue.length : Int) - 1 then
    let position := p.playbackQueuePosition + 1
    {p with playbackQueuePosition := position}.getTrackIdAt position false
  else if p.repeatMode = .all then
    {p with playbackQueuePosition := 0}.getTrackIdAt 0 false
  else (.ok none,p)

def getPrevTrack (p : Playlist Id) : Except ListError (Option Id) × Playlist Id :=
  if p.playbackQueuePosition > 0 then
    let position := p.playbackQueuePosition - 1
    {p with playbackQueuePosition := position}.getTrackIdAt position false
  else (.ok none,p)

/-- `Collections.swap` throws before it stores anything. -/
def onTrackMoved (p : Playlist Id) (originPos destPos : Int) :
    Except ListError Unit × Playlist Id :=
  match getAt p.playbackQueue originPos,getAt p.playbackQueue destPos with
  | .ok origin,.ok dest =>
    let queue := (p.playbackQueue.set destPos.toNat origin).set originPos.toNat dest
    let position := if originPos = p.playbackQueuePosition then destPos
      else if destPos = p.playbackQueuePosition then originPos
      else p.playbackQueuePosition
    (.ok (),{p with playbackQueue := queue, playbackQueuePosition := position})
  | _,_ => (.error .indexOutOfBounds,p)

def onTrackRemoved (p : Playlist Id) (position : Int) : Except ListError Unit × Playlist Id :=
  match getAt p.playbackQueue position with
  | .error error => (.error error,p)
  | .ok _ => (.ok (),{p with
      playbackQueue := p.playbackQueue.eraseIdx position.toNat
      playbackQueuePosition := if position < p.playbackQueuePosition
        then p.playbackQueuePosition - 1 else p.playbackQueuePosition})

/-- What `Player.play(queue, position)` does to the playlist, and the id it hands on;
`none` where the command refuses the position. -/
def playFrom (p : Playlist Id) (queue : List (Option Id)) (position : Int)
    (shuffler : Shuffler) : Option (Except ListError (Option Id)) × Playlist Id :=
  if position < queue.length then
    let replaced := {p.setPlaybackQueue queue shuffler with playbackQueuePosition := position}
    let (trackId,after) := replaced.getTrackIdAt position true
    (some trackId,after)
  else (none,p)

/-- What `Player.play(position)` does to the playlist, and the id it hands on. -/
def playAt (p : Playlist Id) (position : Int) : Except ListError (Option Id) × Playlist Id :=
  {p with playbackQueuePosition := position}.getTrackIdAt position true

end Playlist

inductive PlaylistCommand (Id : Type)
  | play (queue : List (Option Id)) (position : Int) (shuffler : Shuffler)
  | playPosition (position : Int)
  | getNextTrack
  | getPrevTrack
  | setShuffle (value : Bool) (shuffler : Shuffler)
  | toggleRepeat
  | onTrackMoved (originPos destPos : Int)
  | onTrackRemoved (position : Int)

namespace Playlist
variable {Id : Type}

def after (p : Playlist Id) : PlaylistCommand Id → Playlist Id
  | .play queue position shuffler => (p.playFrom queue position shuffler).2
  | .playPosition position => (p.playAt position).2
  | .getNextTrack => p.getNextTrack.2
  | .getPrevTrack => p.getPrevTrack.2
  | .setShuffle value shuffler => (p.setShuffle value shuffler).2
  | .toggleRepeat => {p with repeatMode := p.repeatMode.toggleRepeat}
  | .onTrackMoved originPos destPos => (p.onTrackMoved originPos destPos).2
  | .onTrackRemoved position => (p.onTrackRemoved position).2

def step (p : Playlist Id) (command : PlaylistCommand Id) : Option (Playlist Id) :=
  some (p.after command)

/-- With shuffle on, the shuffled order lists each position of the queue once. -/
def ShuffleConsistent (p : Playlist Id) : Prop :=
  p.shuffle = true → ∃ queue, p.shuffledPositionQueue = some queue ∧
    queue.Perm (positions p.playbackQueue.length)

def RemovesShuffled (p : Playlist Id) : PlaylistCommand Id → Prop
  | .onTrackRemoved position => p.shuffle = true ∧ 0 ≤ position ∧
      position < p.playbackQueue.length
  | _ => False

theorem getAt_error {α : Type} {items : List α} {index : Int} :
    getAt items index = .error .indexOutOfBounds ↔ ¬ (0 ≤ index ∧ index < items.length) := by
  unfold getAt
  split
  · simp; omega
  · split
    next absent => simp only [List.getElem?_eq_none_iff] at absent; simp; omega
    next present =>
      have bound := (List.getElem?_eq_some_iff.mp present).1
      simp; omega

theorem getAt_ok {α : Type} {items : List α} {index : Int} {item : α}
    (found : getAt items index = .ok item) : 0 ≤ index ∧ index < items.length := by
  by_contra outside
  rw [getAt_error.mpr outside] at found
  cases found

structure SameOrder (p q : Playlist Id) : Prop where
  shuffle : q.shuffle = p.shuffle
  order : q.shuffledPositionQueue = p.shuffledPositionQueue
  size : q.playbackQueue.length = p.playbackQueue.length

theorem SameOrder.refl (p : Playlist Id) : SameOrder p p := ⟨rfl,rfl,rfl⟩

theorem SameOrder.consistent {p q : Playlist Id} (same : SameOrder p q) :
    q.ShuffleConsistent ↔ p.ShuffleConsistent := by
  simp only [ShuffleConsistent,same.shuffle,same.order,same.size]

theorem getTrackIdAt_order (p : Playlist Id) (position : Int) (ignoreShuffle : Bool) :
    SameOrder p (p.getTrackIdAt position ignoreShuffle).2 := by
  unfold getTrackIdAt
  split
  · exact .refl p
  · dsimp only
    split
    · exact .refl p
    · exact ⟨rfl,rfl,rfl⟩

theorem getNextTrack_order (p : Playlist Id) : SameOrder p p.getNextTrack.2 := by
  unfold getNextTrack
  split
  · have kept := getTrackIdAt_order
      {p with playbackQueuePosition := p.playbackQueuePosition + 1} (p.playbackQueuePosition + 1) false
    exact ⟨kept.shuffle,kept.order,kept.size⟩
  · split
    · have kept := getTrackIdAt_order {p with playbackQueuePosition := 0} 0 false
      exact ⟨kept.shuffle,kept.order,kept.size⟩
    · exact .refl p

theorem getPrevTrack_order (p : Playlist Id) : SameOrder p p.getPrevTrack.2 := by
  unfold getPrevTrack
  split
  · have kept := getTrackIdAt_order
      {p with playbackQueuePosition := p.playbackQueuePosition - 1} (p.playbackQueuePosition - 1) false
    exact ⟨kept.shuffle,kept.order,kept.size⟩
  · exact .refl p

theorem playAt_order (p : Playlist Id) (position : Int) : SameOrder p (p.playAt position).2 := by
  have kept := getTrackIdAt_order {p with playbackQueuePosition := position} position true
  exact ⟨kept.shuffle,kept.order,kept.size⟩

theorem onTrackMoved_order (p : Playlist Id) (originPos destPos : Int) :
    SameOrder p (p.onTrackMoved originPos destPos).2 := by
  unfold onTrackMoved
  split
  · exact ⟨rfl,rfl,by simp⟩
  · exact .refl p

theorem generated_consistent (p : Playlist Id) (shuffler : Shuffler) :
    (p.generateRandomPositionArray shuffler).ShuffleConsistent :=
  fun _ => ⟨_,rfl,shuffler.perm _⟩

theorem playFrom_consistent (p : Playlist Id) (queue : List (Option Id)) (position : Int)
    (shuffler : Shuffler) (consistent : p.ShuffleConsistent) :
    (p.playFrom queue position shuffler).2.ShuffleConsistent := by
  unfold playFrom
  split
  · have kept := getTrackIdAt_order
      {p.setPlaybackQueue queue shuffler with playbackQueuePosition := position} position true
    refine kept.consistent.mpr ?_
    intro shuffled
    cases on : p.shuffle with
    | false => simp [setPlaybackQueue,on] at shuffled
    | true =>
      refine ⟨shuffler.order (positions queue.length),?_,?_⟩
      · simp [setPlaybackQueue,on,generateRandomPositionArray]
      · simpa [setPlaybackQueue,on,generateRandomPositionArray] using shuffler.perm _
  · exact consistent

theorem setShuffle_consistent (p : Playlist Id) (value : Bool) (shuffler : Shuffler)
    (consistent : p.ShuffleConsistent) : (p.setShuffle value shuffler).2.ShuffleConsistent := by
  cases value with
  | true => exact fun _ => ⟨_,rfl,shuffler.perm _⟩
  | false =>
    simp only [setShuffle,Bool.false_eq_true,if_false]
    split
    · exact consistent
    · intro shuffled
      cases shuffled

theorem positions_length (size : Nat) : (positions size).length = size := by
  simp [positions]

/-- A removal keeps the relation exactly when shuffle is off or nothing is removed:
the shuffled order still has one entry more than the queue. -/
theorem onTrackRemoved_consistent (p : Playlist Id) (position : Int)
    (consistent : p.ShuffleConsistent) :
    (p.onTrackRemoved position).2.ShuffleConsistent ↔
      ¬ p.RemovesShuffled (.onTrackRemoved position) := by
  unfold onTrackRemoved RemovesShuffled
  cases read : getAt p.playbackQueue position with
  | error error =>
    have outside := getAt_error.mp (by cases error; exact read)
    simp only [consistent,true_iff]
    tauto
  | ok item =>
    have inside := getAt_ok read
    simp only [inside,and_true]
    cases on : p.shuffle with
    | false => simp [ShuffleConsistent]
    | true =>
      obtain ⟨queue,stored,permuted⟩ := consistent on
      have size : queue.length = p.playbackQueue.length := by
        rw [permuted.length_eq,positions_length]
      simp only [not_true_eq_false,iff_false]
      intro still
      obtain ⟨other,same,reordered⟩ := still rfl
      have equal : other = queue := Option.some.inj (same.symm.trans stored)
      have short := reordered.length_eq
      rw [positions_length,equal,size,List.length_eraseIdx] at short
      split at short <;> omega

theorem after_consistent (p : Playlist Id) (command : PlaylistCommand Id)
    (consistent : p.ShuffleConsistent) :
    (p.after command).ShuffleConsistent ↔ ¬ p.RemovesShuffled command := by
  cases command with
  | play queue position shuffler =>
    simpa [after,RemovesShuffled] using playFrom_consistent p queue position shuffler consistent
  | playPosition position =>
    simpa [after,RemovesShuffled] using (playAt_order p position).consistent.mpr consistent
  | getNextTrack =>
    simpa [after,RemovesShuffled] using (getNextTrack_order p).consistent.mpr consistent
  | getPrevTrack =>
    simpa [after,RemovesShuffled] using (getPrevTrack_order p).consistent.mpr consistent
  | setShuffle value shuffler =>
    simpa [after,RemovesShuffled] using setShuffle_consistent p value shuffler consistent
  | toggleRepeat => simpa [after,RemovesShuffled,ShuffleConsistent] using consistent
  | onTrackMoved originPos destPos =>
    simpa [after,RemovesShuffled] using
      (onTrackMoved_order p originPos destPos).consistent.mpr consistent
  | onTrackRemoved position => exact onTrackRemoved_consistent p position consistent

/-- Over any sequence of commands from the empty playlist, the shuffled order stays a
permutation of the queue's positions exactly as long as no track is removed while
shuffle is on. -/
theorem shuffled_order_iff (commands : List (PlaylistCommand Id)) :
    Run.Always step ShuffleConsistent (initial : Playlist Id) commands ↔
      Run.Meets step (fun p command => ¬ p.RemovesShuffled command) initial commands := by
  obtain ⟨finish,run⟩ := Run.exec_total (fun _ _ => ⟨_,rfl⟩) (initial : Playlist Id) commands
  have exactly (p : Playlist Id) (command : PlaylistCommand Id) (q : Playlist Id)
      (consistent : p.ShuffleConsistent) (taken : step p command = some q) :
      q.ShuffleConsistent ↔ ¬ p.RemovesShuffled command := by
    cases Option.some.inj taken
    exact after_consistent p command consistent
  exact Run.always_iff_meets (fun _ consistent => consistent)
    (fun p command q consistent kept taken => (exactly p command q consistent taken).mpr kept)
    (fun p command q consistent taken after => (exactly p command q consistent taken).mp after)
    (by simp [ShuffleConsistent,initial]) run

/-- Two tracks, shuffle on, one removed: the order still lists two positions. -/
theorem shuffled_order_broken :
    ¬ ∀ commands (p : Playlist Nat), Run.exec step initial commands = some p →
      p.ShuffleConsistent := by
  intro always
  let keep : Shuffler := ⟨id,fun _ => List.Perm.refl _⟩
  obtain ⟨queue,stored,permuted⟩ := always
    [.play [some 7,some 8] 0 keep,.setShuffle true keep,.onTrackRemoved 0] _ rfl rfl
  cases Option.some.inj stored
  exact absurd permuted.length_eq (by decide)

end Playlist
end Chipbox.Player
