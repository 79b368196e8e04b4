import Chipbox.Player.IndexSafety

/-! When edits of the queue keep the current track. -/
namespace Chipbox.Player.Playlist
variable {Id : Type}

def entry {α : Type} (items : List α) (index : Int) : Option α := (getAt items index).toOption

def currentPosition (p : Playlist Id) : Option Int :=
  if p.shuffle then p.shuffledPositionQueue.bind fun order => entry order p.playbackQueuePosition
  else some p.playbackQueuePosition

def currentTrack (p : Playlist Id) : Option (Option Id) :=
  p.currentPosition.bind (entry p.playbackQueue)

instance (p : Playlist Id) (position : Int) : Decidable (p.Inside position) :=
  inferInstanceAs (Decidable (_ ∧ _))

/-- The command edits the queue inside and does not take the current track out. -/
def Edits (p : Playlist Id) : PlaylistCommand Id → Prop
  | .onTrackMoved originPos destPos => p.Inside originPos ∧ p.Inside destPos
  | .onTrackRemoved position => p.Inside position ∧ p.currentPosition ≠ some position
  | _ => False

/-- The other of two positions. -/
def exchange (originPos destPos position : Int) : Int :=
  if position = originPos then destPos else if position = destPos then originPos else position

/-- Where an entry of the queue was before the one at the position was taken out. -/
def widen (removed position : Int) : Int := if position < removed then position else position + 1

/-- Shuffle is off, or the shuffled order leads from the adjusted cursor to the same track:
the order itself is not adjusted. -/
def KeepsCurrent (p : Playlist Id) : PlaylistCommand Id → Prop
  | .onTrackMoved originPos destPos => p.shuffle = true →
    ((p.shuffledPositionQueue.bind fun order =>
      entry order (exchange originPos destPos p.playbackQueuePosition)).bind fun position =>
        entry p.playbackQueue (exchange originPos destPos position)) = p.currentTrack
  | .onTrackRemoved removed => p.shuffle = true →
    ((p.shuffledPositionQueue.bind fun order => entry order
      (if removed < p.playbackQueuePosition then p.playbackQueuePosition - 1
        else p.playbackQueuePosition)).bind fun position =>
        entry p.playbackQueue (widen removed position)) = p.currentTrack
  | _ => True

section Entries
variable {α : Type} {items : List α}

theorem entry_eq (index : Int) : entry items index =
    if 0 ≤ index then items[index.toNat]? else none := by
  unfold entry getAt
  by_cases low : index < 0
  · rw [if_pos low,if_neg (by omega)]
    rfl
  · rw [if_neg low,if_pos (by omega)]
    cases items[index.toNat]? <;> rfl

theorem entry_of_getAt {index : Int} {item : α} (read : getAt items index = .ok item) :
    items[index.toNat]? = some item := by
  have low := (getAt_ok read).1
  have found : entry items index = some item := by
    unfold entry
    rw [read]
    rfl
  rw [entry_eq,if_pos low] at found
  exact found

theorem entry_swapped {originPos destPos : Int} {origin dest : α}
    (first : getAt items originPos = .ok origin) (second : getAt items destPos = .ok dest) (index : Int) :
    entry ((items.set destPos.toNat origin).set originPos.toNat dest) index =
      entry items (exchange originPos destPos index) := by
  obtain ⟨originLow,originHigh⟩ := getAt_ok first
  obtain ⟨destLow,destHigh⟩ := getAt_ok second
  have originHeld := entry_of_getAt first
  have destHeld := entry_of_getAt second
  rw [entry_eq,entry_eq]
  by_cases low : 0 ≤ index
  · unfold exchange
    rw [if_pos low]
    by_cases atOrigin : index = originPos
    · subst atOrigin
      rw [if_pos rfl,if_pos destLow,destHeld,List.getElem?_set_self (by simpa using by omega)]
    · have apart : originPos.toNat ≠ index.toNat := by omega
      rw [if_neg atOrigin,List.getElem?_set_ne apart]
      by_cases atDest : index = destPos
      · subst atDest
        rw [if_pos rfl,if_pos originLow,originHeld,List.getElem?_set_self (by omega)]
      · have other : destPos.toNat ≠ index.toNat := by omega
        rw [if_neg atDest,if_pos low,List.getElem?_set_ne other]
  · have outside : exchange originPos destPos index = index := by
      unfold exchange
      rw [if_neg (by omega),if_neg (by omega)]
    rw [outside,if_neg low,if_neg low]

theorem entry_erased {removed : Int} (low : 0 ≤ removed) (index : Int) :
    entry (items.eraseIdx removed.toNat) index = entry items (widen removed index) := by
  rw [entry_eq,entry_eq]
  unfold widen
  by_cases before : index < removed
  · rw [if_pos before]
    by_cases above : 0 ≤ index
    · rw [if_pos above,if_pos above,List.getElem?_eraseIdx_of_lt (by omega)]
    · rw [if_neg above,if_neg above]
  · have next : (index + 1).toNat = index.toNat + 1 := by omega
    rw [if_neg before,if_pos (by omega),if_pos (by omega),next,List.getElem?_eraseIdx_of_ge (by omega)]

end Entries

theorem exchange_exchange {originPos destPos position : Int} :
    exchange originPos destPos (exchange originPos destPos position) = position := by
  unfold exchange
  split
  · split <;> omega
  · split
    · simp
      omega
    · omega

/-- An edit keeps the current track exactly if shuffle is off or the order happens to lead to it. -/
theorem edit_keeps {p q : Playlist Id} {command : PlaylistCommand Id} (edits : p.Edits command)
    (taken : step p command = some q) : q.currentTrack = p.currentTrack ↔ p.KeepsCurrent command := by
  cases taken
  cases command with
  | onTrackMoved originPos destPos =>
    obtain ⟨⟨originLow,originHigh⟩,destLow,destHigh⟩ := edits
    obtain ⟨origin,_,first⟩ := getAt_inside originLow originHigh
    obtain ⟨dest,_,second⟩ := getAt_inside destLow destHigh
    have cursor : (if originPos = p.playbackQueuePosition then destPos
        else if destPos = p.playbackQueuePosition then originPos else p.playbackQueuePosition) =
          exchange originPos destPos p.playbackQueuePosition := by
      unfold exchange
      split_ifs <;> omega
    unfold after onTrackMoved
    simp only [first,second,cursor]
    unfold KeepsCurrent currentTrack currentPosition
    dsimp only
    have swapped := funext (entry_swapped first second)
    cases shuffled : p.shuffle with
    | true =>
      simp only [if_true,swapped,forall_const]
    | false =>
      simp only [Bool.false_eq_true,if_false,Option.bind_some,swapped,exchange_exchange,false_implies]
  | onTrackRemoved removed =>
    obtain ⟨⟨low,high⟩,other⟩ := edits
    obtain ⟨item,_,read⟩ := getAt_inside low high
    unfold after onTrackRemoved
    simp only [read]
    unfold KeepsCurrent currentTrack currentPosition
    dsimp only
    have erased : entry (p.playbackQueue.eraseIdx removed.toNat) = _ := funext (entry_erased low)
    cases shuffled : p.shuffle with
    | true =>
      simp only [if_true,erased,forall_const]
    | false =>
      have apart : p.playbackQueuePosition ≠ removed := by
        intro same
        apply other
        unfold currentPosition
        rw [shuffled,same]
        rfl
      have cursor : widen removed (if removed < p.playbackQueuePosition then p.playbackQueuePosition - 1
          else p.playbackQueuePosition) = p.playbackQueuePosition := by
        unfold widen
        split
        · rw [if_neg (by omega)]
          omega
        · rw [if_pos (by omega)]
      simp only [Bool.false_eq_true,if_false,Option.bind_some,erased,cursor,false_implies]
  | _ => exact edits.elim

/-- Over any edits, from any playlist, the current track stays the same exactly as long as each
edit is made with shuffle off or meets an order that leads to it. -/
theorem current_kept_iff (p : Playlist Id) (commands : List (PlaylistCommand Id))
    (edits : Run.Meets step Edits p commands) :
    Run.Always step (fun q => q.currentTrack = p.currentTrack) p commands ↔
      Run.Meets step KeepsCurrent p commands := by
  have total (q : Playlist Id) (command : PlaylistCommand Id) : ∃ t, step q command = some t := ⟨_,rfl⟩
  obtain ⟨finish,run⟩ := Run.exec_total total p commands
  have kept : ∀ q : Playlist Id, q.currentTrack = p.currentTrack → q.currentTrack = p.currentTrack := fun _ same => same
  apply Run.always_iff_meets_among kept _ _ rfl run edits
  · intro q command t same edits keeps taken
    exact ((edit_keeps edits taken).mpr keeps).trans same
  · intro q command t same edits taken after
    exact (edit_keeps edits taken).mp (after.trans same.symm)

/-- A move with shuffle on, while the order is that of the queue. -/
theorem current_kept_iff_moved :
    let p : Playlist Nat := ⟨1,1,some [0,1],[some 7,some 8],none,true,.off⟩
    Run.Always step (fun q => q.currentTrack = p.currentTrack) p [.onTrackMoved 0 1] ∧
      Run.Meets step KeepsCurrent p [.onTrackMoved 0 1] := by
  intro p
  have edits : Run.Meets step Edits p [.onTrackMoved 0 1] := by
    refine ⟨?_,trivial⟩
    constructor <;> decide
  have kept : Run.Always step (fun q => q.currentTrack = p.currentTrack) p [.onTrackMoved 0 1] :=
    ⟨rfl,rfl⟩
  exact ⟨kept,(current_kept_iff p [.onTrackMoved 0 1] edits).mp kept⟩

/-- Three tracks in the reverse order, the last one current; the first two change places. -/
theorem current_lost :
    let reversed : Shuffler := ⟨List.reverse,List.reverse_perm⟩
    ∃ p q : Playlist Nat,
      Run.exec step initial [.play [some 7,some 8,some 9] 0 reversed,.setShuffle true reversed] = some p ∧
        p.Edits (.onTrackMoved 0 1) ∧ step p (.onTrackMoved 0 1) = some q ∧
          p.currentTrack = some (some 9) ∧ q.currentTrack = some (some 7) := by
  refine ⟨_,_,rfl,?_,rfl,rfl,rfl⟩
  constructor <;> decide

end Chipbox.Player.Playlist
