import Mathlib.Data.List.Nodup
import Mathlib.Data.List.TakeWhile
import Chipbox.Player.IndexSafety

/-! Which positions of the queue a shuffled playback hands out. -/
namespace Chipbox.Player.Playlist
variable {Id : Type}

/-- The positions handed out by `getNextTrack` until it returns null, within some calls. -/
def tourFrom : Nat → Playlist Id → List Int
  | 0,_ => []
  | calls+1,p =>
    match p.getNextTrack with
    | (.ok (some _),q) => q.actualPlaybackQueuePosition::tourFrom calls q
    | _ => []

/-- The positions handed out by `play(queue, 0)` and then by `getNextTrack`. -/
def tour (p : Playlist Id) (queue : List (Option Id)) (shuffler : Shuffler) (calls : Nat) :
    List Int :=
  match p.playFrom queue 0 shuffler with
  | (some (.ok _),q) => q.actualPlaybackQueuePosition::tourFrom calls q
  | _ => []

def hasTrack (queue : List (Option Id)) (position : Int) : Bool :=
  (queue[position.toNat]?.bind id).isSome

/-- What the calls of `getNextTrack` read: they walk along the shuffled order. -/
structure Touring (queue : List (Option Id)) (order : List Int) (index : Nat) (p : Playlist Id) :
    Prop where
  position : p.playbackQueuePosition = index
  inside : index < queue.length
  queue : p.playbackQueue = queue
  shuffle : p.shuffle = true
  order : p.shuffledPositionQueue = some order
  once : p.repeatMode = .off

section Touring
variable {queue : List (Option Id)} {order : List Int}

theorem getAt_eq {α : Type} {items : List α} {index : Int} (above : 0 ≤ index)
    (bound : index.toNat < items.length) : getAt items index = .ok items[index.toNat] := by
  rw [getAt,if_neg (by omega),List.getElem?_eq_getElem bound]

theorem getAt_nat {α : Type} {items : List α} {index : Nat} (bound : index < items.length) :
    getAt items index = .ok items[index] := getAt_eq (Int.natCast_nonneg index) bound

/-- One more call reads through the next entry of the shuffled order. -/
theorem Touring.next {index : Nat} {p : Playlist Id} (touring : Touring queue order index p)
    (permuted : order.Perm (positions queue.length)) (more : index + 1 < order.length) :
    Touring queue order (index + 1) p.getNextTrack.2 ∧
      p.getNextTrack.2.actualPlaybackQueuePosition = order[index + 1] ∧
      ∃ found, p.getNextTrack.1 = .ok found ∧ found.isSome = hasTrack queue order[index + 1] := by
  obtain ⟨position,inside,stored,shuffle,shuffled,once⟩ := touring
  have size : order.length = queue.length := by rw [permuted.length_eq,positions_length]
  obtain ⟨low,high⟩ := mem_positions.mp (permuted.mem_iff.mp (List.getElem_mem more))
  have bound : order[index + 1].toNat < queue.length := by omega
  have read : getAt queue order[index + 1] = .ok queue[order[index + 1].toNat] := getAt_eq low bound
  have cursor : p.playbackQueuePosition + 1 = ((index + 1 : Nat) : Int) := by omega
  have state : p.getNextTrack = (.ok queue[order[index + 1].toNat],
      {p with playbackQueuePosition := ((index + 1 : Nat) : Int),
              actualPlaybackQueuePosition := order[index + 1]}) := by
    have forward : p.playbackQueuePosition < (queue.length : Int) - 1 := by omega
    have short : ¬ ((index + 1 : Nat) : Int) > (queue.length : Int) := by omega
    simp only [getNextTrack,stored,if_pos forward,cursor,getTrackIdAt,if_neg short,shuffle,
      Bool.not_false,Bool.and_true,if_true,shuffled,getAt_nat more,read]
  rw [state]
  refine ⟨⟨rfl,by omega,stored,shuffle,shuffled,once⟩,rfl,_,rfl,?_⟩
  rw [hasTrack,List.getElem?_eq_getElem bound]
  rfl

/-- From an index on, the tour is the rest of the shuffled order up to a missing id. -/
theorem tourFrom_eq (permuted : order.Perm (positions queue.length)) (calls : Nat) {index : Nat}
    {p : Playlist Id} (touring : Touring queue order index p)
    (enough : queue.length ≤ index + 1 + calls) :
    tourFrom calls p = (order.drop (index + 1)).takeWhile (hasTrack queue) := by
  have size : order.length = queue.length := by rw [permuted.length_eq,positions_length]
  induction calls generalizing index p with
  | zero => simp [tourFrom,List.drop_eq_nil_of_le (by omega : order.length ≤ index + 1)]
  | succ calls ih =>
    by_cases more : index + 1 < order.length
    · obtain ⟨touring',actual,found,read,present⟩ := touring.next permuted more
      have rest := ih touring' (by omega)
      rw [List.drop_eq_getElem_cons more,List.takeWhile_cons,← present]
      unfold tourFrom
      generalize p.getNextTrack = result at *
      obtain ⟨outcome,q⟩ := result
      dsimp only at read actual rest
      rw [read]
      cases found with
      | none => simp
      | some id => simp [actual,rest]
    · have done : p.getNextTrack = (.ok none,p) := by
        have last : ¬ p.playbackQueuePosition < (p.playbackQueue.length : Int) - 1 := by
          rw [touring.position,touring.queue]; omega
        simp [getNextTrack,last,touring.once]
      rw [List.drop_eq_nil_of_le (by omega)]
      simp [tourFrom,done]

end Touring

/-- A shuffled playback hands out every position once exactly when the shuffled order begins
with position 0, which `play` hands out whatever the order is, and every later entry of the
queue has an id. -/
theorem tour_iff (p : Playlist Id) (shuffle : p.shuffle = true) (once : p.repeatMode = .off)
    (queue : List (Option Id)) (nonempty : queue ≠ []) (shuffler : Shuffler) (calls : Nat)
    (enough : queue.length ≤ calls + 1) :
    (p.tour queue shuffler calls).Perm (positions queue.length) ↔
      (shuffler.order (positions queue.length)).head? = some 0 ∧
      ∀ entry ∈ queue.tail, entry ≠ none := by
  have size := List.length_pos_iff.mpr nonempty
  have permuted := shuffler.perm (positions queue.length)
  generalize ordered : shuffler.order (positions queue.length) = order at *
  have played : p.playFrom queue 0 shuffler = (some (.ok queue[0]),
      {p with playbackQueue := queue, shuffledPositionQueue := some order,
              playbackQueuePosition := 0, actualPlaybackQueuePosition := 0}) := by
    have start : (0 : Int) < queue.length := by omega
    have short : ¬ (0 : Int) > queue.length := by omega
    have read : getAt queue 0 = .ok queue[0] := getAt_nat size
    simp only [playFrom,if_pos start,setPlaybackQueue,shuffle,if_true,generateRandomPositionArray,
      getTrackIdAt,if_neg short,Bool.not_true,Bool.and_false,Bool.false_eq_true,if_false,read,ordered]
  have toured : p.tour queue shuffler calls = 0::order.tail.takeWhile (hasTrack queue) := by
    have touring : Touring queue order 0 {p with
        playbackQueue := queue, shuffledPositionQueue := some order,
        playbackQueuePosition := 0, actualPlaybackQueuePosition := 0} :=
      ⟨rfl,size,rfl,shuffle,rfl,once⟩
    have walked := tourFrom_eq permuted calls touring (by omega)
    rw [Nat.zero_add,List.drop_one] at walked
    simp only [tour,played,walked]
  have distinct : order.Nodup := by
    rw [permuted.nodup_iff]
    exact List.Nodup.map (fun _ _ => Int.ofNat.inj) List.nodup_range
  rw [toured]
  cases ordering : order with
  | nil =>
    rw [ordering] at permuted
    have length := permuted.length_eq
    rw [positions_length,List.length_nil] at length
    omega
  | cons first rest =>
    rw [ordering] at permuted distinct
    have mem_rest (position : Int) : position ∈ rest ↔
        (0 ≤ position ∧ position < queue.length) ∧ position ≠ first := by
      rw [← mem_positions,← permuted.mem_iff,List.mem_cons]
      have apart := (List.nodup_cons.mp distinct).1
      constructor
      · exact fun listed => ⟨.inr listed,fun same => apart (same ▸ listed)⟩
      · rintro ⟨same | listed,other⟩
        · exact absurd same other
        · exact listed
    simp only [List.tail_cons,List.head?_cons,Option.some.injEq]
    constructor
    · intro visits
      -- nothing was cut off, so the walk is the whole rest of the order
      have all : rest.takeWhile (hasTrack queue) = rest := by
        refine (List.takeWhile_prefix _).eq_of_length ?_
        have length := visits.length_eq.trans permuted.length_eq.symm
        simpa using length
      rw [all] at visits
      have zero : first = 0 := by
        have listed : first ∈ (0 : Int)::rest := (visits.trans permuted.symm).mem_iff.mpr
          List.mem_cons_self
        rcases List.mem_cons.mp listed with same | later
        · exact same
        · exact absurd later (List.nodup_cons.mp distinct).1
      refine ⟨zero,fun entry listed => ?_⟩
      obtain ⟨index,bound,rfl⟩ := List.mem_iff_getElem.mp listed
      rw [List.length_tail] at bound
      have present : ((index + 1 : Nat) : Int) ∈ rest := (mem_rest _).mpr ⟨⟨by omega,by omega⟩,by omega⟩
      have has := (List.takeWhile_eq_self_iff.mp all) _ present
      rw [List.getElem_tail]
      intro missing
      simp [hasTrack,List.getElem?_eq_getElem (by omega : index + 1 < queue.length),missing] at has
    · rintro ⟨rfl,entries⟩
      have all : rest.takeWhile (hasTrack queue) = rest := by
        refine List.takeWhile_eq_self_iff.mpr fun position listed => ?_
        obtain ⟨⟨above,below⟩,later⟩ := (mem_rest position).mp listed
        have bound : position.toNat < queue.length := by omega
        have inTail : queue[position.toNat] ∈ queue.tail := by
          refine List.mem_iff_getElem.mpr ⟨position.toNat - 1,by rw [List.length_tail]; omega,?_⟩
          rw [List.getElem_tail]
          congr 1
          omega
        have has := entries _ inTail
        rw [hasTrack,List.getElem?_eq_getElem bound]
        exact Option.isSome_iff_ne_none.mpr has
      rw [all]
      exact permuted

/-- Two tracks and a shuffle that keeps their order. -/
theorem tour_iff_two :
    ((⟨0,0,none,[],none,true,.off⟩ : Playlist Nat).tour [some 7,some 8] ⟨id,fun _ => .refl _⟩ 1).Perm
      (positions 2) :=
  (tour_iff ⟨0,0,none,[],none,true,.off⟩ rfl rfl [some 7,some 8] (by decide) ⟨id,fun _ => .refl _⟩ 1
    (by decide)).mpr ⟨rfl,by decide⟩

/-- Two tracks and a shuffle that swaps them: the first is handed out twice. -/
theorem tour_repeats :
    (⟨0,0,none,[],none,true,.off⟩ : Playlist Nat).tour [some 7,some 8]
      ⟨List.reverse,List.reverse_perm⟩ 1 = [0,0] ∧ ¬ ([0,0] : List Int).Perm (positions 2) := by
  decide

end Chipbox.Player.Playlist
