import Chipbox.Player.Playlist

/-! When the commands of a playlist read outside a list. -/
namespace Chipbox.Player.Playlist
variable {Id : Type}

def Throws (p : Playlist Id) : PlaylistCommand Id → Prop
  | .play queue position shuffler =>
    (p.playFrom queue position shuffler).1 = some (.error .indexOutOfBounds)
  | .playPosition position => (p.playAt position).1 = .error .indexOutOfBounds
  | .getNextTrack => p.getNextTrack.1 = .error .indexOutOfBounds
  | .getPrevTrack => p.getPrevTrack.1 = .error .indexOutOfBounds
  | .setShuffle value shuffler => (p.setShuffle value shuffler).1 = .error .indexOutOfBounds
  | .toggleRepeat => False
  | .onTrackMoved originPos destPos => (p.onTrackMoved originPos destPos).1 = .error .indexOutOfBounds
  | .onTrackRemoved position => (p.onTrackRemoved position).1 = .error .indexOutOfBounds

def Inside (p : Playlist Id) (position : Int) : Prop :=
  0 ≤ position ∧ position < p.playbackQueue.length

def Addressed (p : Playlist Id) : PlaylistCommand Id → Prop
  | .play queue position _ => position < queue.length
  | .playPosition position => p.Inside position
  | .onTrackMoved originPos destPos => p.Inside originPos ∧ p.Inside destPos
  | .onTrackRemoved position => p.Inside position
  | _ => True

/-- The queue does not start over while it is empty, shuffle is switched off at a track of
the queue, no track is removed while it is on, and no queue starts at a negative position. -/
def Guarded (p : Playlist Id) : PlaylistCommand Id → Prop
  | .play _ position _ => 0 ≤ position
  | .getNextTrack => ¬ (p.playbackQueue = [] ∧ p.repeatMode = .all)
  | .setShuffle value _ =>
    value = false → p.shuffle = true → p.playbackQueuePosition < p.playbackQueue.length
  | .onTrackRemoved _ => p.shuffle = false
  | _ => True

instance (p : Playlist Id) (command : PlaylistCommand Id) : Decidable (p.Addressed command) := by
  cases command <;> unfold Addressed <;> unfold Inside <;> infer_instance

instance (p : Playlist Id) (command : PlaylistCommand Id) : Decidable (p.Guarded command) := by
  cases command <;> unfold Guarded <;> infer_instance

/-- The position is in the queue or right behind it, and there is a shuffled order exactly
while shuffle is on, which lists each position once. -/
structure Indexed (p : Playlist Id) : Prop where
  above : 0 ≤ p.playbackQueuePosition
  below : p.playbackQueuePosition ≤ p.playbackQueue.length
  consistent : p.ShuffleConsistent
  unshuffled : p.shuffle = false → p.shuffledPositionQueue = none

theorem getAt_inside {α : Type} {items : List α} {index : Int} (above : 0 ≤ index)
    (below : index < items.length) : ∃ item ∈ items, getAt items index = .ok item := by
  have bound : index.toNat < items.length := by omega
  refine ⟨items[index.toNat],List.getElem_mem bound,?_⟩
  rw [getAt,if_neg (by omega),List.getElem?_eq_getElem bound]

theorem mem_positions {size : Nat} {position : Int} :
    position ∈ positions size ↔ 0 ≤ position ∧ position < size := by
  simp only [positions,List.mem_map,List.mem_range]
  constructor
  · rintro ⟨index,bound,rfl⟩
    exact ⟨Int.natCast_nonneg index,by simpa using bound⟩
  · rintro ⟨above,below⟩
    exact ⟨position.toNat,by omega,Int.toNat_of_nonneg above⟩

/-- Reading at a position of the queue succeeds, through the shuffled order or past it. -/
theorem getTrackIdAt_inside {p : Playlist Id} (consistent : p.ShuffleConsistent) {position : Int}
    (inside : p.Inside position) (ignoreShuffle : Bool) :
    ∃ id, (p.getTrackIdAt position ignoreShuffle).1 = .ok id := by
  obtain ⟨above,below⟩ := inside
  unfold getTrackIdAt
  rw [if_neg (by omega)]
  by_cases through : (p.shuffle && !ignoreShuffle) = true
  · have on : p.shuffle = true := by simp only [Bool.and_eq_true] at through; exact through.1
    obtain ⟨queue,stored,permuted⟩ := consistent on
    have size : queue.length = p.playbackQueue.length := by
      rw [permuted.length_eq,positions_length]
    obtain ⟨actual,listed,read⟩ := getAt_inside above (by omega : position < queue.length)
    obtain ⟨low,high⟩ := mem_positions.mp (permuted.mem_iff.mp listed)
    obtain ⟨id,_,found⟩ := getAt_inside low high
    simp only [through,if_true,stored,read]
    exact ⟨id,found⟩
  · obtain ⟨id,_,found⟩ := getAt_inside above below
    simp only [through]
    exact ⟨id,found⟩

theorem getTrackIdAt_position (p : Playlist Id) (position : Int) (ignoreShuffle : Bool) :
    (p.getTrackIdAt position ignoreShuffle).2.playbackQueuePosition = p.playbackQueuePosition ∧
      (p.getTrackIdAt position ignoreShuffle).2.playbackQueue = p.playbackQueue := by
  unfold getTrackIdAt
  split
  · exact ⟨rfl,rfl⟩
  · dsimp only
    split <;> exact ⟨rfl,rfl⟩

theorem getTrackIdAt_indexed {p : Playlist Id} (indexed : p.Indexed) (position : Int)
    (ignoreShuffle : Bool) : (p.getTrackIdAt position ignoreShuffle).2.Indexed := by
  obtain ⟨same,queue⟩ := getTrackIdAt_position p position ignoreShuffle
  have order := getTrackIdAt_order p position ignoreShuffle
  constructor
  · rw [same]; exact indexed.above
  · rw [same,queue]; exact indexed.below
  · exact order.consistent.mpr indexed.consistent
  · rw [order.shuffle,order.order]; exact indexed.unshuffled

theorem Indexed.moveTo {p : Playlist Id} (indexed : p.Indexed) {position : Int} (above : 0 ≤ position)
    (below : position ≤ p.playbackQueue.length) :
    Indexed {p with playbackQueuePosition := position} :=
  ⟨above,below,indexed.consistent,indexed.unshuffled⟩

theorem setPlaybackQueue_queue (p : Playlist Id) (queue : List (Option Id)) (shuffler : Shuffler) :
    (p.setPlaybackQueue queue shuffler).playbackQueue = queue := by
  unfold setPlaybackQueue
  dsimp only
  split <;> rfl

section Commands
variable {p : Playlist Id} (indexed : p.Indexed)
include indexed

theorem getNextTrack_throws : p.Throws .getNextTrack ↔ ¬ p.Guarded .getNextTrack := by
  change p.getNextTrack.1 = .error .indexOutOfBounds ↔
    ¬ ¬ (p.playbackQueue = [] ∧ p.repeatMode = .all)
  unfold getNextTrack
  have above := indexed.above
  split
  next inside =>
    have reached : Inside {p with playbackQueuePosition := p.playbackQueuePosition + 1}
        (p.playbackQueuePosition + 1) := ⟨by omega,by dsimp only; omega⟩
    obtain ⟨id,read⟩ := getTrackIdAt_inside
      (indexed.moveTo (by omega : 0 ≤ p.playbackQueuePosition + 1) (by omega)).consistent reached false
    have present : p.playbackQueue ≠ [] := by
      intro empty
      simp only [empty,List.length_nil] at inside
      omega
    dsimp only
    rw [read]
    simp [present]
  next outside =>
    split
    next again =>
      by_cases empty : p.playbackQueue = []
      · have failed : (Playlist.getTrackIdAt {p with playbackQueuePosition := 0} 0 false).1 =
            .error .indexOutOfBounds := by
          unfold getTrackIdAt
          rw [if_neg (by simp)]
          cases on : p.shuffle with
          | false => simp [empty,getAt]
          | true =>
            obtain ⟨queue,stored,permuted⟩ := indexed.consistent on
            have nothing : queue = [] := by simpa [empty,positions] using permuted
            simp [stored,nothing,getAt]
        exact iff_of_true failed (not_not.mpr ⟨empty,again⟩)
      · have size := List.length_pos_iff.mpr empty
        have reached : Inside {p with playbackQueuePosition := 0} 0 :=
          ⟨Int.le_refl 0,by dsimp only; omega⟩
        obtain ⟨id,read⟩ := getTrackIdAt_inside
          (indexed.moveTo (Int.le_refl 0) (Int.natCast_nonneg _)).consistent reached false
        rw [read]
        simp [empty]
    next once => simp [once]

theorem getNextTrack_indexed : p.getNextTrack.2.Indexed := by
  unfold getNextTrack
  have above := indexed.above
  split
  · exact getTrackIdAt_indexed (indexed.moveTo (by omega) (by omega)) _ _
  · split
    · exact getTrackIdAt_indexed (indexed.moveTo (Int.le_refl 0) (by omega)) _ _
    · exact indexed

theorem getPrevTrack_throws : ¬ p.Throws .getPrevTrack := by
  change ¬ p.getPrevTrack.1 = .error .indexOutOfBounds
  unfold getPrevTrack
  have below := indexed.below
  split
  next inside =>
    have reached : Inside {p with playbackQueuePosition := p.playbackQueuePosition - 1}
        (p.playbackQueuePosition - 1) := ⟨by omega,by dsimp only; omega⟩
    obtain ⟨id,read⟩ := getTrackIdAt_inside
      (indexed.moveTo (by omega : 0 ≤ p.playbackQueuePosition - 1) (by omega)).consistent reached false
    simp [read]
  next => simp

theorem getPrevTrack_indexed : p.getPrevTrack.2.Indexed := by
  unfold getPrevTrack
  have below := indexed.below
  split
  · exact getTrackIdAt_indexed (indexed.moveTo (by omega) (by omega)) _ _
  · exact indexed

theorem setShuffle_throws (value : Bool) (shuffler : Shuffler) :
    p.Throws (.setShuffle value shuffler) ↔ ¬ p.Guarded (.setShuffle value shuffler) := by
  cases value with
  | true => simp [Throws,Guarded,setShuffle]
  | false =>
    cases on : p.shuffle with
    | false => simp [Throws,Guarded,setShuffle,indexed.unshuffled on,on]
    | true =>
      obtain ⟨queue,stored,permuted⟩ := indexed.consistent on
      have size : queue.length = p.playbackQueue.length := by
        rw [permuted.length_eq,positions_length]
      have above := indexed.above
      simp only [Throws,Guarded,setShuffle,stored,Bool.false_eq_true,if_false,on,forall_const]
      cases read : getAt queue p.playbackQueuePosition with
      | error error =>
        have outside := getAt_error.mp (by cases error; exact read)
        cases error
        simp only [true_iff]
        omega
      | ok position =>
        have inside := getAt_ok read
        simp only [reduceCtorEq,false_iff,not_not]
        omega

theorem setShuffle_indexed (value : Bool) (shuffler : Shuffler) :
    (p.setShuffle value shuffler).2.Indexed := by
  have kept := setShuffle_consistent p value shuffler indexed.consistent
  cases value with
  | true => exact ⟨indexed.above,indexed.below,kept,fun off => by cases off⟩
  | false =>
    have still := kept
    simp only [setShuffle,Bool.false_eq_true,if_false] at still ⊢
    split
    next => exact indexed
    next position read =>
      split at read
      next =>
        cases read
        exact ⟨Int.le_refl 0,Int.natCast_nonneg _,fun on => by (cases on),fun _ => rfl⟩
      next queue stored =>
        have on : p.shuffle = true := by
          by_contra off
          rw [indexed.unshuffled (Bool.eq_false_iff.mpr off)] at stored
          cases stored
        obtain ⟨order,same,permuted⟩ := indexed.consistent on
        cases Option.some.inj (stored.symm.trans same)
        have listed : position ∈ queue := by
          have inside := getAt_ok read
          obtain ⟨item,listed,found⟩ := getAt_inside inside.1 inside.2
          cases read.symm.trans found
          exact listed
        obtain ⟨low,high⟩ := mem_positions.mp (permuted.mem_iff.mp listed)
        exact ⟨low,Int.le_of_lt high,fun on => by (cases on),fun _ => rfl⟩

theorem setPlaybackQueue_indexed (queue : List (Option Id)) (shuffler : Shuffler) {position : Int}
    (above : 0 ≤ position) (below : position < queue.length) :
    Indexed {p.setPlaybackQueue queue shuffler with playbackQueuePosition := position} := by
  cases on : p.shuffle with
  | false =>
    have same : p.setPlaybackQueue queue shuffler = {p with playbackQueue := queue} := by
      simp [setPlaybackQueue,on]
    rw [same]
    exact ⟨above,Int.le_of_lt below,fun shuffled => absurd (on.symm.trans shuffled) (by decide),
      indexed.unshuffled⟩
  | true =>
    have same : p.setPlaybackQueue queue shuffler =
        {p with playbackQueue := queue}.generateRandomPositionArray shuffler := by
      simp [setPlaybackQueue,on]
    rw [same]
    exact ⟨above,Int.le_of_lt below,generated_consistent {p with playbackQueue := queue} shuffler,
      fun off => absurd (on.symm.trans off) (by decide)⟩

theorem playFrom_throws (queue : List (Option Id)) (position : Int) (shuffler : Shuffler)
    (addressed : position < queue.length) :
    p.Throws (.play queue position shuffler) ↔ ¬ p.Guarded (.play queue position shuffler) := by
  have stored := setPlaybackQueue_queue p queue shuffler
  simp only [Throws,Guarded,playFrom,if_pos addressed,Option.some.injEq]
  by_cases above : 0 ≤ position
  · have replaced := setPlaybackQueue_indexed indexed queue shuffler above addressed
    have inside : Inside {p.setPlaybackQueue queue shuffler with playbackQueuePosition := position}
        position := ⟨above,by dsimp only; rw [stored]; exact addressed⟩
    obtain ⟨id,read⟩ := getTrackIdAt_inside replaced.consistent inside true
    rw [read]
    simp [above]
  · have low : position < 0 := by omega
    simp only [getTrackIdAt,stored,Bool.not_true,Bool.and_false,Bool.false_eq_true,if_false]
    rw [if_neg (by omega)]
    simp [getAt,low]

theorem playFrom_indexed (queue : List (Option Id)) {position : Int} (shuffler : Shuffler)
    (above : 0 ≤ position) : (p.playFrom queue position shuffler).2.Indexed := by
  unfold playFrom
  split
  next below =>
    exact getTrackIdAt_indexed (setPlaybackQueue_indexed indexed queue shuffler above below) _ _
  next => exact indexed

theorem playAt_throws {position : Int} (inside : p.Inside position) :
    ¬ p.Throws (.playPosition position) := by
  have reached : Inside {p with playbackQueuePosition := position} position := inside
  obtain ⟨id,read⟩ := getTrackIdAt_inside
    (indexed.moveTo inside.1 (Int.le_of_lt inside.2)).consistent reached true
  simp [Throws,playAt,read]

theorem playAt_indexed {position : Int} (inside : p.Inside position) :
    (p.playAt position).2.Indexed :=
  getTrackIdAt_indexed (indexed.moveTo inside.1 (Int.le_of_lt inside.2)) _ _

theorem onTrackMoved_indexed {originPos destPos : Int}
    (origin : p.Inside originPos) (dest : p.Inside destPos) :
    (p.onTrackMoved originPos destPos).1 = .ok () ∧ (p.onTrackMoved originPos destPos).2.Indexed := by
  obtain ⟨first,_,one⟩ := getAt_inside origin.1 origin.2
  obtain ⟨second,_,other⟩ := getAt_inside dest.1 dest.2
  have order := onTrackMoved_order p originPos destPos
  unfold onTrackMoved at order ⊢
  simp only [one,other] at order ⊢
  refine ⟨trivial,?_,?_,order.consistent.mpr indexed.consistent,indexed.unshuffled⟩
  · dsimp only
    split
    · exact dest.1
    · split
      · exact origin.1
      · exact indexed.above
  · simp only [List.length_set]
    split
    · exact Int.le_of_lt dest.2
    · split
      · exact Int.le_of_lt origin.2
      · exact indexed.below

theorem onTrackRemoved_indexed {position : Int}
    (inside : p.Inside position) : (p.onTrackRemoved position).1 = .ok () ∧
      (p.shuffle = false → (p.onTrackRemoved position).2.Indexed) := by
  obtain ⟨item,_,read⟩ := getAt_inside inside.1 inside.2
  obtain ⟨above,below⟩ := inside
  unfold onTrackRemoved
  simp only [read,true_and]
  refine fun off => ⟨?_,?_,fun on => ?_,indexed.unshuffled⟩
  · have := indexed.above
    dsimp only
    split <;> omega
  · have := indexed.below
    simp only [List.length_eraseIdx]
    split <;> split <;> omega
  · exact absurd on (by simp [off])

/-- A command of an indexed playlist throws exactly where it is not guarded, removals under
shuffle apart: they only spoil the order. -/
theorem throws_iff (command : PlaylistCommand Id) (addressed : p.Addressed command) :
    (p.Throws command → ¬ p.Guarded command) ∧
      (¬ p.RemovesShuffled command → ¬ p.Throws command → p.Guarded command) := by
  have plain {throws guarded : Prop} (exactly : throws ↔ ¬ guarded) :
      (throws → ¬ guarded) ∧ (¬ p.RemovesShuffled command → ¬ throws → guarded) := by tauto
  cases command with
  | play queue position shuffler => exact plain (playFrom_throws indexed queue position shuffler addressed)
  | playPosition position =>
    exact plain (iff_of_false (playAt_throws indexed addressed) (not_not.mpr trivial))
  | getNextTrack => exact plain (getNextTrack_throws indexed)
  | getPrevTrack => exact plain (iff_of_false (getPrevTrack_throws indexed) (not_not.mpr trivial))
  | setShuffle value shuffler => exact plain (setShuffle_throws indexed value shuffler)
  | toggleRepeat => exact plain (iff_of_false id (not_not.mpr trivial))
  | onTrackMoved originPos destPos =>
    have done := (onTrackMoved_indexed indexed addressed.1 addressed.2).1
    exact plain (iff_of_false (by simp [Throws,done]) (not_not.mpr trivial))
  | onTrackRemoved position =>
    have done := (onTrackRemoved_indexed indexed addressed).1
    refine ⟨fun failed => by simp [Throws,done] at failed,fun kept _ => ?_⟩
    by_contra on
    exact kept ⟨Bool.not_eq_false _ ▸ on,addressed.1,addressed.2⟩

theorem after_indexed (command : PlaylistCommand Id) (addressed : p.Addressed command)
    (guarded : p.Guarded command) : (p.after command).Indexed := by
  cases command with
  | play queue position shuffler => exact playFrom_indexed indexed queue shuffler guarded
  | playPosition position => exact playAt_indexed indexed addressed
  | getNextTrack => exact getNextTrack_indexed indexed
  | getPrevTrack => exact getPrevTrack_indexed indexed
  | setShuffle value shuffler => exact setShuffle_indexed indexed value shuffler
  | toggleRepeat => exact ⟨indexed.above,indexed.below,indexed.consistent,indexed.unshuffled⟩
  | onTrackMoved originPos destPos => exact (onTrackMoved_indexed indexed addressed.1 addressed.2).2
  | onTrackRemoved position => exact (onTrackRemoved_indexed indexed addressed).2 guarded

end Commands

theorem initial_indexed : (initial : Playlist Id).Indexed :=
  ⟨Int.le_refl 0,Int.le_refl 0,fun on => by (cases on),fun _ => rfl⟩

/-- A run of guarded commands never reads outside a list, and as long as nothing is removed
under shuffle, a run that never does so is guarded. -/
theorem index_safe (commands : List (PlaylistCommand Id))
    (addressed : Run.Meets step Addressed initial commands) :
    (Run.Meets step Guarded initial commands →
      Run.Meets step (fun p command => ¬ p.Throws command) initial commands) ∧
    (Run.Meets step (fun p command => ¬ p.RemovesShuffled command) initial commands →
      Run.Meets step (fun p command => ¬ p.Throws command) initial commands →
      Run.Meets step Guarded initial commands) := by
  constructor
  · intro guarded
    have met : Run.Meets step (fun p command => Addressed p command ∧ Guarded p command) initial
        commands := Run.meets_and.mpr ⟨addressed,guarded⟩
    refine Run.meets_of_meets ?_ ?_ initial_indexed met
    · rintro p command q indexed ⟨inside,met⟩ taken
      cases Option.some.inj taken
      exact after_indexed indexed command inside met
    · rintro p command indexed ⟨inside,met⟩ failed
      exact (throws_iff indexed command inside).1 failed met
  · intro kept quiet
    have met : Run.Meets step (fun p command => Addressed p command ∧
        ¬ p.RemovesShuffled command ∧ ¬ p.Throws command) initial commands :=
      Run.meets_and.mpr ⟨addressed,Run.meets_and.mpr ⟨kept,quiet⟩⟩
    refine Run.meets_of_meets ?_ ?_ initial_indexed met
    · rintro p command q indexed ⟨inside,kept,quiet⟩ taken
      cases Option.some.inj taken
      exact after_indexed indexed command inside ((throws_iff indexed command inside).2 kept quiet)
    · rintro p command indexed ⟨inside,kept,quiet⟩
      exact (throws_iff indexed command inside).2 kept quiet

/-- Two tracks played, moved and taken out again. -/
theorem index_safe_two : Run.Meets step (fun p command => ¬ p.Throws command) (initial : Playlist Nat)
    [.play [some 7,some 8] 1 ⟨id,fun _ => .refl _⟩,.onTrackMoved 0 1,.getNextTrack,.getPrevTrack,
      .onTrackRemoved 1] :=
  (index_safe [.play [some 7,some 8] 1 ⟨id,fun _ => .refl _⟩,.onTrackMoved 0 1,.getNextTrack,
    .getPrevTrack,.onTrackRemoved 1] (by decide)).1 (by decide)

/-- The queue is emptied while repeating all, and the next track is asked for. -/
theorem index_unsafe_empty :
    Run.Meets step Addressed (initial : Playlist Nat)
      [.play [some 7] 0 ⟨id,fun _ => .refl _⟩,.toggleRepeat,.onTrackRemoved 0,.getNextTrack] ∧
    ¬ Run.Meets step (fun p command => ¬ p.Throws command) (initial : Playlist Nat)
      [.play [some 7] 0 ⟨id,fun _ => .refl _⟩,.toggleRepeat,.onTrackRemoved 0,.getNextTrack] :=
  ⟨by decide,fun safe => safe.2.2.2.1 rfl⟩

end Chipbox.Player.Playlist
