import Chipbox.Library.Unchanged
import Chipbox.Library.Summary

/-! What an update makes of the artists of a track. The first loop of `updateArtists` removes
artists from the list it goes over. -/
namespace Chipbox.Library
open Table

/-- The first loop where the rest of the list moves up: the artist after a removed one is skipped. -/
def survivorsShifting (keep : Nat → Bool) : List Nat → List Nat
  | [] => []
  | [artist] => if keep artist then [artist] else []
  | artist::next::rest =>
    if keep artist then artist::survivorsShifting keep (next::rest)
    else next::survivorsShifting keep rest

/-- The first loop where it is detected: it ends by itself only after the last but one. -/
def survivorsFailFast (keep : Nat → Bool) : List Nat → Option (List Nat)
  | [] => some []
  | artist::rest =>
    if keep artist then (survivorsFailFast keep rest).map (artist::·)
    else match rest with
      | [last] => some [last]
      | _ => none

/-- The artists that the first loop of `updateArtists` leaves; nothing where it throws. -/
def survivors (keep : Nat → Bool) (artists : List Nat) : Iteration → Option (List Nat)
  | .shifting => some (survivorsShifting keep artists)
  | .failFast => survivorsFailFast keep artists

namespace Store

def named (s : Store) (names : List String) (artist : Nat) : Bool :=
  names.any (fun name => s.artistName artist = some name)

section Drop
variable {s : Store} {track : Nat}

theorem unlink_artistName (s : Store) (track artist : Nat) :
    (s.unlink track artist).artistName = s.artistName := by
  funext other
  unfold artistName
  rw [row?_unlink_artists]
  split
  next here =>
    subst here
    cases row? s.artists other <;> rfl
  next => rfl

theorem unlink_named (s : Store) (track artist : Nat) (names : List String) :
    (s.unlink track artist).named names = s.named names := by
  unfold named
  rw [unlink_artistName]

/-- Removing the artist under the cursor leaves the others and moves the rest up. -/
theorem erase_at {artists : List Nat} {cursor artist : Nat} {rest : List Nat}
    (here : artists.drop cursor = artist::rest) :
    (artists.erase artist).Perm (artists.take cursor ++ rest) ∧
      (artists.erase artist).drop (cursor + 1) = rest.drop 1 := by
  have split : artists = artists.take cursor ++ artist::rest := by
    rw [← here,List.take_append_drop]
  have length : (artists.take cursor).length = cursor := by
    rw [List.length_take]
    have longer := congrArg List.length here
    rw [List.length_drop,List.length_cons] at longer
    omega
  generalize artists.take cursor = before at *
  subst split
  constructor
  · have moved : (before ++ artist::rest).Perm (artist::(before ++ rest)) := List.perm_middle
    have erased := moved.erase artist
    rw [List.erase_cons_head] at erased
    exact erased
  · rw [List.erase_append]
    split
    next earlier =>
      have shorter := List.length_erase_of_mem earlier
      have nonempty := List.length_pos_of_mem earlier
      have position : cursor + 1 = (before.erase artist).length + 2 := by omega
      rw [position,← List.drop_drop,List.drop_left]
      cases rest <;> rfl
    next =>
      rw [List.erase_cons_head,← length,← List.drop_drop,List.drop_left]

/-- What the first loop of `updateArtists` does from a cursor on. -/
structure Drops (mode : Iteration) (names : List String) (track cursor : Nat) (s : Store) (row : TrackRow)
    (before : Bool) (outcome : Store × Option Bool) : Prop where
  throws : survivors (s.named names) (row.artists.drop cursor) mode = none → outcome.2 = none ∧
    ∃ artists, row? outcome.1.tracks track = some {row with artists := artists} ∧
      artists.Perm (row.artists.take cursor ++ (row.artists.drop cursor).eraseP (!s.named names ·))
  leaves : ∀ rest, survivors (s.named names) (row.artists.drop cursor) mode = some rest →
    outcome.2 = some (before || !(row.artists.drop cursor).all (s.named names)) ∧
      ∃ artists, row? outcome.1.tracks track = some {row with artists := artists} ∧
        artists.Perm (row.artists.take cursor ++ rest)
  same : outcome.1.artistName = s.artistName

theorem drops_end {mode : Iteration} {names : List String} {cursor : Nat} {row : TrackRow}
    (stored : row? s.tracks track = some row) (done : row.artists.length ≤ cursor) (before : Bool) :
    Drops mode names track cursor s row before (s,some before) := by
  have nothing : row.artists.drop cursor = [] := List.drop_eq_nil_of_le done
  refine ⟨fun threw => ?_,fun rest left => ?_,rfl⟩
  · rw [nothing] at threw
    cases mode <;> cases threw
  · rw [nothing] at left ⊢
    have none_left : rest = [] := by
      cases mode <;> exact (Option.some.inj left).symm
    refine ⟨by simp,row.artists,stored,?_⟩
    rw [none_left,List.append_nil,List.take_of_length_le done]

theorem Drops.keep {mode : Iteration} {names : List String} {cursor artist : Nat} {row : TrackRow}
    {rest : List Nat} {before : Bool} {outcome : Store × Option Bool}
    (here : row.artists.drop cursor = artist::rest) (kept : s.named names artist = true)
    (drops : Drops mode names track (cursor + 1) s row before outcome) :
    Drops mode names track cursor s row before outcome := by
  have next : row.artists.drop (cursor + 1) = rest := by
    rw [← List.drop_drop,here]
    rfl
  have taken : row.artists.take (cursor + 1) = row.artists.take cursor ++ [artist] := by
    have found : row.artists[cursor]? = some artist := by
      rw [← List.head?_drop,here]
      rfl
    rw [List.take_add_one,found]
    rfl
  have survive : survivors (s.named names) (artist::rest) mode =
      (survivors (s.named names) rest mode).map (artist::·) := by
    cases mode with
    | shifting =>
      cases rest with
      | nil => simp [survivors,survivorsShifting,kept]
      | cons other rest => simp [survivors,survivorsShifting,kept]
    | failFast => simp [survivors,survivorsFailFast,kept]
  refine ⟨fun threw => ?_,fun survived left => ?_,drops.same⟩
  · rw [here,survive,Option.map_eq_none_iff] at threw
    obtain ⟨stopped,artists,after,order⟩ := drops.throws (by rw [next]; exact threw)
    refine ⟨stopped,artists,after,?_⟩
    rw [here,List.eraseP_cons_of_neg (by simp [kept])]
    rw [taken,next,List.append_assoc] at order
    exact order
  · rw [here,survive] at left
    obtain ⟨others,rested,rfl⟩ := Option.map_eq_some_iff.mp left
    obtain ⟨flag,artists,after,order⟩ := drops.leaves others (by rw [next]; exact rested)
    refine ⟨?_,artists,after,?_⟩
    · rw [flag,next,here,List.all_cons,kept,Bool.true_and]
    · rw [taken,List.append_assoc] at order
      exact order

/-- The cursor passes over the artist that moves up in place of a removed one. -/
theorem Drops.shift {names : List String} {cursor artist : Nat} {row : TrackRow} {rest : List Nat}
    {before : Bool} {outcome : Store × Option Bool}
    (here : row.artists.drop cursor = artist::rest) (dropped : s.named names artist = false)
    (drops : Drops .shifting names track (cursor + 1) (s.unlink track artist)
      {row with artists := row.artists.erase artist} true outcome) :
    Drops .shifting names track cursor s row before outcome := by
  obtain ⟨order,next⟩ := erase_at here
  have same : (s.unlink track artist).named names = s.named names := unlink_named s track artist names
  refine ⟨fun threw => absurd threw (Option.some_ne_none _),fun survived left => ?_,?_⟩
  swap
  · rw [drops.same,unlink_artistName]
  have leaves := drops.leaves (survivorsShifting (s.named names) (rest.drop 1)) (by
    rw [same,next]
    rfl)
  obtain ⟨flag,artists,after,arranged⟩ := leaves
  rw [here,survivors,Option.some.injEq] at left
  refine ⟨?_,artists,after,?_⟩
  · rw [flag,here,List.all_cons,dropped]
    simp
  · have moved : ((row.artists.erase artist).take (cursor + 1)).Perm
        (row.artists.take cursor ++ rest.take 1) := by
      have whole : ((row.artists.erase artist).take (cursor + 1) ++ rest.drop 1).Perm
          ((row.artists.take cursor ++ rest.take 1) ++ rest.drop 1) := by
        rw [← next,List.take_append_drop,next,List.append_assoc,List.take_append_drop]
        exact order
      exact (List.perm_append_right_iff _).mp whole
    have survive : survived = rest.take 1 ++ survivorsShifting (s.named names) (rest.drop 1) := by
      rw [← left]
      cases rest with
      | nil => simp [survivorsShifting,dropped]
      | cons other rest => simp [survivorsShifting,dropped]
    rw [survive,← List.append_assoc]
    exact arranged.trans (moved.append_right _)

theorem dropArtists_drops (mode : Iteration) (newArtists : Option (List String)) {fuel cursor : Nat}
    {row : TrackRow} (stored : row? s.tracks track = some row)
    (enough : row.artists.length ≤ cursor + fuel) (before : Bool) :
    Drops mode (newArtists.getD []) track cursor s row before
      (s.dropArtists mode newArtists track fuel cursor before) := by
  induction fuel generalizing s cursor row before with
  | zero => exact drops_end stored enough before
  | succ fuel ih =>
    unfold dropArtists
    rw [stored,Option.bind_some]
    cases found : row.artists[cursor]? with
    | none => exact drops_end stored (List.getElem?_eq_none_iff.mp found) before
    | some artist =>
      have here : ∃ rest, row.artists.drop cursor = artist::rest := by
        obtain ⟨inside,at_cursor⟩ := List.getElem?_eq_some_iff.mp found
        exact ⟨_,by rw [List.drop_eq_getElem_cons inside,at_cursor]⟩
      obtain ⟨rest,here⟩ := here
      have unlinked : row? (s.unlink track artist).tracks track =
          some {row with artists := row.artists.erase artist} := by
        rw [row?_unlink_tracks,if_pos rfl,stored]
        rfl
      have present : artist ∈ row.artists := List.mem_of_getElem? found
      have shorter := List.length_erase_of_mem present
      have test : (newArtists.getD []).any (fun name => s.artistName artist = some name) =
          s.named (newArtists.getD []) artist := rfl
      dsimp only
      rw [test]
      by_cases kept : s.named (newArtists.getD []) artist = true
      · rw [if_pos kept]
        exact Drops.keep here kept (ih stored (by omega) before)
      · rw [if_neg kept]
        rw [Bool.not_eq_true] at kept
        cases mode with
        | shifting =>
          apply Drops.shift here kept
          exact ih unlinked (by dsimp only; omega) true
        | failFast =>
          obtain ⟨order,_⟩ := erase_at here
          have length : row.artists.length = cursor + rest.length + 1 := by
            have longer := congrArg List.length here
            rw [List.length_drop,List.length_cons] at longer
            omega
          dsimp only
          rw [unlinked,Option.map_some]
          have size : (row.artists.erase artist).length = cursor + rest.length := by omega
          split
          next one =>
            have alone : rest.length = 1 := by
              have sum := Option.some.inj one
              dsimp only at sum
              omega
            obtain ⟨last,rfl⟩ := List.length_eq_one_iff.mp alone
            refine ⟨fun threw => ?_,fun survived left => ?_,unlink_artistName s track artist⟩
            · rw [here] at threw
              simp [survivors,survivorsFailFast,kept] at threw
            · rw [here] at left ⊢
              simp only [survivors,survivorsFailFast,kept,Bool.false_eq_true,if_false,
                Option.some.injEq] at left
              subst left
              refine ⟨by simp [kept],_,unlinked,order⟩
          next more =>
            refine ⟨fun _ => ⟨rfl,_,unlinked,?_⟩,fun survived left => ?_,unlink_artistName s track artist⟩
            · rw [here,List.eraseP_cons_of_pos (by simp [kept])]
              exact order
            rw [here] at left
            simp only [survivors,survivorsFailFast,kept,Bool.false_eq_true,if_false] at left
            split at left
            next last => exact absurd (by rw [size]; rfl) more
            next => cases left

end Drop

section Add
variable {s : Store} {track : Nat}

def Names (s : Store) (artists : List Nat) (name : String) : Prop :=
  ∃ artist ∈ artists, s.artistName artist = some name

theorem link_artistName (s : Store) (track artist : Nat) :
    (s.link track artist).artistName = s.artistName := by
  funext other
  unfold artistName
  rw [row?_link_artists]
  split
  next here =>
    subst here
    cases row? s.artists other <;> rfl
  next => rfl

theorem getArtistByName_artistName (keyed : s.Keyed) (name : String) :
    (s.getArtistByName name).2.artistName (s.getArtistByName name).1 = some name ∧
      ∀ artist row, row? s.artists artist = some row →
        (s.getArtistByName name).2.artistName artist = s.artistName artist := by
  have fresh := row?_fresh keyed.artistsBelow
  unfold getArtistByName
  split
  next row found =>
    have stored := row?_of_mem keyed.artists (List.mem_of_find?_eq_some found)
    refine ⟨?_,fun _ _ _ => rfl⟩
    have named : row.name = some name := by simpa using List.find?_some found
    change artistName s row.id = some name
    unfold artistName
    change (row? s.artists (Row.key row)).bind ArtistRow.name = some name
    rw [stored]
    exact named
  next =>
    constructor
    · unfold artistName
      dsimp only
      rw [row?_append,fresh]
      simp [Row.key]
    · intro artist row stored
      unfold artistName
      dsimp only
      rw [row?_append,stored]
      rfl

theorem addArtist_names {state : Store × Bool} {row : TrackRow} (tied : state.1.Tied)
    (stored : row? state.1.tracks track = some row) (newArtist : String) :
    (addArtist track state newArtist).1.Tied ∧
    (∃ artists, row? (addArtist track state newArtist).1.tracks track =
        some {row with artists := artists} ∧ (artists.Nodup ↔ row.artists.Nodup) ∧
      (∀ artist ∈ artists, artist ∈ row.artists ∨
        (addArtist track state newArtist).1.artistName artist = some newArtist) ∧
      (∀ artist ∈ row.artists, artist ∈ artists ∧
        (addArtist track state newArtist).1.artistName artist = state.1.artistName artist) ∧
      (addArtist track state newArtist).1.Names artists newArtist) ∧
    (addArtist track state newArtist).2 =
      (state.2 || !(row.artists.any fun artist => state.1.artistName artist = some newArtist)) := by
  have held := (addArtist_held Pairing.balanced_discipline tied stored newArtist).1
  refine ⟨held,?_⟩
  clear held
  obtain ⟨_,_,pairing,tracks,_,⟨artistRow,found⟩,known⟩ := getArtistByName_spec tied.keyed newArtist
  obtain ⟨names,kept⟩ := getArtistByName_artistName tied.keyed newArtist
  unfold addArtist
  rw [stored]
  dsimp only [Option.map_some,Option.getD_some]
  cases matched : row.artists.any (fun artist => state.1.artistName artist = some newArtist) with
  | true =>
    obtain ⟨artist,listed,named⟩ := List.any_eq_true.mp matched
    rw [if_pos rfl]
    refine ⟨⟨row.artists,stored,Iff.rfl,fun _ member => .inl member,fun _ member => ⟨member,rfl⟩,
      artist,listed,of_decide_eq_true named⟩,by simp⟩
  | false =>
    rw [if_neg Bool.false_ne_true]
    have still : row? (state.1.getArtistByName newArtist).2.tracks track = some row := by
      rw [tracks]
      exact stored
    have listed_stored (artist : Nat) (listed : artist ∈ row.artists) :
        ∃ old, row? state.1.artists artist = some old := by
      have linked : artist ∈ state.1.artistPairing.forward track := by
        simpa [artistPairing,stored] using listed
      exact tied.listed_artist Pairing.balanced_discipline linked
    have apart : (state.1.getArtistByName newArtist).1 ∉ row.artists := by
      intro listed
      obtain ⟨old,old_stored⟩ := listed_stored _ listed
      have unmatched := List.any_eq_false.mp matched _ listed
      apply unmatched
      simp [artistName,old_stored,known old old_stored]
    refine ⟨⟨row.artists ++ [(state.1.getArtistByName newArtist).1],?_,?_,?_,?_,?_⟩,by simp⟩
    · rw [row?_link_tracks,if_pos rfl,still]
      rfl
    · rw [List.nodup_append_comm,List.singleton_append,List.nodup_cons]
      exact and_iff_right apart
    · intro artist member
      rcases List.mem_append.mp member with old | new
      · exact .inl old
      · rw [List.mem_singleton.mp new,link_artistName]
        exact .inr names
    · intro artist member
      obtain ⟨old,old_stored⟩ := listed_stored artist member
      rw [link_artistName]
      exact ⟨List.mem_append_left _ member,kept artist old old_stored⟩
    · refine ⟨_,List.mem_append_right _ (List.mem_singleton.mpr rfl),?_⟩
      rw [link_artistName]
      exact names

/-- What the second loop of `updateArtists` makes of the artists that the first has left. -/
structure Adds (names : List String) (s t : Store) (left artists : List Nat) : Prop where
  tied : t.Tied
  nodup : artists.Nodup ↔ left.Nodup
  from_names : ∀ artist ∈ artists, artist ∈ left ∨ ∃ name ∈ names, t.artistName artist = some name
  keeps : ∀ artist ∈ left, artist ∈ artists ∧ t.artistName artist = s.artistName artist
  adds : ∀ name ∈ names, t.Names artists name

theorem addArtists_adds {state : Store × Bool} {row : TrackRow} (tied : state.1.Tied)
    (stored : row? state.1.tracks track = some row) (names : List String) :
    (∃ artists, row? (names.foldl (addArtist track) state).1.tracks track =
        some {row with artists := artists} ∧
      Adds names state.1 (names.foldl (addArtist track) state).1 row.artists artists) ∧
    ((names.foldl (addArtist track) state).2 = true ↔
      state.2 = true ∨ ∃ name ∈ names, ¬ state.1.Names row.artists name) := by
  induction names generalizing state row with
  | nil => exact ⟨⟨row.artists,stored,tied,Iff.rfl,fun _ member => .inl member,
      fun _ member => ⟨member,rfl⟩,nofun⟩,by simp⟩
  | cons name rest ih =>
    obtain ⟨mid_tied,⟨middle,mid_stored,mid_nodup,mid_from,mid_keeps,mid_adds⟩,mid_flag⟩ :=
      addArtist_names tied stored name
    rw [List.foldl_cons]
    generalize addArtist track state name = mid at *
    obtain ⟨⟨artists,last_stored,last⟩,flag⟩ := ih mid_tied mid_stored
    dsimp only at last flag
    refine ⟨⟨artists,last_stored,last.tied,last.nodup.trans mid_nodup,?_,?_,?_⟩,?_⟩
    · intro artist member
      rcases last.from_names artist member with old | ⟨other,listed,named⟩
      · rcases mid_from artist old with older | named
        · exact .inl older
        · exact .inr ⟨name,List.mem_cons_self,(last.keeps artist old).2.trans named⟩
      · exact .inr ⟨other,.tail _ listed,named⟩
    · intro artist member
      obtain ⟨there,named⟩ := mid_keeps artist member
      obtain ⟨still,renamed⟩ := last.keeps artist there
      exact ⟨still,renamed.trans named⟩
    · intro other listed
      rcases List.mem_cons.mp listed with rfl | later
      · obtain ⟨artist,member,named⟩ := mid_adds
        obtain ⟨still,renamed⟩ := last.keeps artist member
        exact ⟨artist,still,renamed.trans named⟩
      · exact last.adds other later
    · have grows (other : String) (known : state.1.Names row.artists other) : mid.1.Names middle other := by
        obtain ⟨artist,member,named⟩ := known
        obtain ⟨there,same⟩ := mid_keeps artist member
        exact ⟨artist,there,same.trans named⟩
      have marks : mid.2 = true ↔ state.2 = true ∨ ¬ state.1.Names row.artists name := by
        rw [mid_flag,Bool.or_eq_true]
        apply or_congr Iff.rfl
        simp [Names]
      rw [flag,marks]
      constructor
      · rintro ((before | fresh) | ⟨other,later,unnamed⟩)
        · exact .inl before
        · exact .inr ⟨name,List.mem_cons_self,fresh⟩
        · exact .inr ⟨other,.tail _ later,fun known => unnamed (grows other known)⟩
      · rintro (before | ⟨other,listed,unnamed⟩)
        · exact .inl (.inl before)
        · by_cases fresh : state.1.Names row.artists name
          · rcases List.mem_cons.mp listed with rfl | later
            · exact absurd fresh unnamed
            · refine .inr ⟨other,later,?_⟩
              rintro ⟨artist,member,named⟩
              rcases mid_from artist member with old | new
              · exact unnamed ⟨artist,old,(mid_keeps artist old).2.symm.trans named⟩
              · rw [new] at named
                cases named
                exact unnamed fresh
          · exact .inl (.inr fresh)

end Add

section Lists
variable {keep : Nat → Bool} {artists : List Nat}

theorem survivors_all (all : ∀ artist ∈ artists, keep artist = true) (mode : Iteration) :
    survivors keep artists mode = some artists := by
  induction artists with
  | nil => cases mode <;> rfl
  | cons artist rest ih =>
    have first := all artist List.mem_cons_self
    have others := ih fun other member => all other (.tail _ member)
    cases mode with
    | shifting =>
      have same : survivorsShifting keep rest = rest := Option.some.inj others
      cases rest with
      | nil => simp [survivors,survivorsShifting,first]
      | cons other rest => simp [survivors,survivorsShifting,first,same]
    | failFast =>
      have same : survivorsFailFast keep rest = some rest := others
      simp [survivors,survivorsFailFast,first,same]

/-- The artists to drop are apart in the list, or where the loop notices its list shrink, there
is at most one, the last but one. -/
def Spared (keep : Nat → Bool) (artists : List Nat) : Iteration → Prop
  | .shifting => artists.IsChain fun artist next => keep artist = true ∨ keep next = true
  | .failFast => ∀ artist ∈ artists.dropLast.dropLast ++ artists.getLast?.toList, keep artist = true

instance (keep : Nat → Bool) (artists : List Nat) : ∀ mode, Decidable (Spared keep artists mode)
  | .shifting => inferInstanceAs (Decidable (List.IsChain _ _))
  | .failFast => inferInstanceAs (Decidable (∀ artist ∈ _, _))

theorem chain_cons {next : Nat} {rest : List Nat} (kept : keep next = true) :
    Spared keep (next::rest) .shifting ↔ Spared keep rest .shifting := by
  cases rest with
  | nil => simp [Spared]
  | cons other rest => simp [Spared,kept]

theorem shifting_right_iff (keep : Nat → Bool) (artists : List Nat) :
    (∀ artist ∈ survivorsShifting keep artists, keep artist = true) ↔ Spared keep artists .shifting := by
  fun_induction survivorsShifting keep artists with
  | case1 => simp [Spared]
  | case2 artist kept => simp [Spared,kept]
  | case3 artist dropped => simp [Spared]
  | case4 artist next rest kept ih =>
    rw [chain_cons kept,← ih,List.forall_mem_cons]
    exact and_iff_right kept
  | case5 artist next rest dropped ih =>
    rw [List.forall_mem_cons,ih]
    by_cases kept : keep next = true
    · rw [← chain_cons kept]
      simp [Spared,kept]
    · simp [Spared,kept,dropped]

theorem shifting_filter (keep : Nat → Bool) (artists : List Nat)
    (spared : Spared keep artists .shifting) : survivorsShifting keep artists = artists.filter keep := by
  fun_induction survivorsShifting keep artists with
  | case1 => rfl
  | case2 artist kept => simp [kept]
  | case3 artist dropped => simp [dropped]
  | case4 artist next rest kept ih =>
    rw [ih ((chain_cons kept).mp spared),List.filter_cons_of_pos kept]
  | case5 artist next rest dropped ih =>
    have kept : keep next = true := by
      have pair : keep artist = true ∨ keep next = true := (List.isChain_cons_cons.mp spared).1
      exact pair.resolve_left dropped
    have others : Spared keep rest .shifting :=
      (chain_cons kept).mp (List.isChain_cons_cons.mp spared).2
    rw [ih others,List.filter_cons_of_neg dropped,List.filter_cons_of_pos kept]

theorem failFast_cons {artist : Nat} {rest : List Nat} (kept : keep artist = true) :
    Spared keep (artist::rest) .failFast ↔ Spared keep rest .failFast := by
  rcases rest with _ | ⟨next,_ | ⟨last,rest⟩⟩
  · simp [Spared,kept]
  · simp [Spared]
  · simp [Spared,kept]

theorem failFast_right_iff (keep : Nat → Bool) (artists : List Nat) :
    (∃ rest, survivorsFailFast keep artists = some rest ∧ ∀ artist ∈ rest, keep artist = true) ↔
      Spared keep artists .failFast := by
  fun_induction survivorsFailFast keep artists with
  | case1 => simp [Spared]
  | case2 artist rest kept ih =>
    rw [failFast_cons kept,← ih]
    constructor
    · rintro ⟨_,left,all⟩
      obtain ⟨others,rested,rfl⟩ := Option.map_eq_some_iff.mp left
      exact ⟨others,rested,fun other member => all other (.tail _ member)⟩
    · rintro ⟨others,rested,all⟩
      exact ⟨artist::others,by rw [rested]; rfl,List.forall_mem_cons.mpr ⟨kept,all⟩⟩
  | case3 artist dropped last => simp [Spared]
  | case4 artist rest dropped more =>
    apply iff_of_false
    · simp
    · intro spared
      apply dropped
      rcases rest with _ | ⟨next,_ | ⟨last,rest⟩⟩
      · exact spared artist (by simp)
      · exact absurd rfl (more next)
      · exact spared artist (by simp)

theorem failFast_filter (keep : Nat → Bool) (artists : List Nat)
    (spared : Spared keep artists .failFast) :
    survivorsFailFast keep artists = some (artists.filter keep) := by
  fun_induction survivorsFailFast keep artists with
  | case1 => rfl
  | case2 artist rest kept ih =>
    rw [ih ((failFast_cons kept).mp spared),List.filter_cons_of_pos kept]
    rfl
  | case3 artist dropped last =>
    have kept : keep last = true := spared last (by simp)
    rw [List.filter_cons_of_neg dropped,List.filter_cons_of_pos kept]
    rfl
  | case4 artist rest dropped more =>
    obtain ⟨_,left,_⟩ := (failFast_right_iff keep (artist::rest)).mpr spared
    simp [survivorsFailFast,dropped] at left

/-- The first loop leaves only artists to keep exactly when those to drop are spared, and then
all of them. -/
theorem survivors_right_iff (keep : Nat → Bool) (artists : List Nat) (mode : Iteration) :
    (∃ rest, survivors keep artists mode = some rest ∧ ∀ artist ∈ rest, keep artist = true) ↔
      Spared keep artists mode := by
  cases mode with
  | shifting =>
    rw [← shifting_right_iff]
    constructor
    · rintro ⟨_,left,all⟩
      cases left
      exact all
    · exact fun all => ⟨_,rfl,all⟩
  | failFast => exact failFast_right_iff keep artists

theorem survivors_filter (mode : Iteration) (spared : Spared keep artists mode) :
    survivors keep artists mode = some (artists.filter keep) := by
  cases mode with
  | shifting => exact congrArg some (shifting_filter keep artists spared)
  | failFast => exact failFast_filter keep artists spared

end Lists

section Credits
variable {s : Store}

def Recredits (s : Store) (names : List String) (artists : List Nat) : Prop :=
  (∃ artist ∈ artists, s.named names artist = false) ∨ ∃ name ∈ names, ¬ s.Names artists name

theorem names_perm {s : Store} {artists others : List Nat} (same : artists.Perm others) (name : String) :
    s.Names artists name ↔ s.Names others name := by
  unfold Names
  simp only [same.mem_iff]

/-- An update with another credit: it throws with the first loop, which has then removed one artist, and
otherwise adds to what that loop leaves. -/
theorem updateArtists_spec {mode : Iteration} {newTrack : Track} {oldTrack row : TrackRow}
    (tied : s.Tied) (stored : row? s.tracks oldTrack.id = some row)
    (artists : oldTrack.artists = row.artists) (differs : oldTrack.artistText ≠ newTrack.artistText) :
    (survivors (s.named (creditedNames newTrack)) row.artists mode = none →
      ∃ t left, s.updateArtists mode newTrack oldTrack = (t,none) ∧
        row? t.tracks oldTrack.id = some {row with
          artistText := newTrack.artistText, artists := left} ∧
        left.Perm (row.artists.eraseP (!s.named (creditedNames newTrack) ·)) ∧
        t.artistName = s.artistName) ∧
    ∀ rest, survivors (s.named (creditedNames newTrack)) row.artists mode = some rest →
      ∃ t changed after left, s.updateArtists mode newTrack oldTrack = (t,some changed) ∧
        (changed = true ↔ s.Recredits (creditedNames newTrack) row.artists) ∧
        row? t.tracks oldTrack.id = some {row with
          artistText := newTrack.artistText, artists := after} ∧
        left.Perm rest ∧ Adds (creditedNames newTrack) s t left after := by
  have texted : (s.modifyTrack oldTrack.id fun row =>
      {row with artistText := newTrack.artistText}).Tied :=
    Held.modifyTrack tied (by exact fun _ => ⟨rfl,rfl,rfl⟩) oldTrack.id
  have still : row? (s.modifyTrack oldTrack.id fun row =>
      {row with artistText := newTrack.artistText}).tracks oldTrack.id =
        some {row with artistText := newTrack.artistText} := by
    rw [row?_modifyTrack (by exact fun _ => rfl),if_pos rfl,stored]
    rfl
  have enough : row.artists.length ≤ 0 + oldTrack.artists.length := by
    rw [artists]
    omega
  have drops := dropArtists_drops mode (newTrack.artistText.map artistNames) still enough false
  have held := dropArtists_held Pairing.balanced_discipline mode (newTrack.artistText.map artistNames)
    oldTrack.id oldTrack.artists.length 0 false texted
  unfold updateArtists
  rw [if_pos differs]
  dsimp only
  generalize dropArtists mode _ oldTrack.id _ 0 _ false = dropped at *
  obtain ⟨u,outcome⟩ := dropped
  have names : (newTrack.artistText.map artistNames).getD [] = creditedNames newTrack := rfl
  rw [names] at drops ⊢
  constructor
  · intro threw
    obtain ⟨stopped,left,left_stored,order⟩ := drops.throws threw
    dsimp only at stopped left_stored
    subst stopped
    rw [List.take_zero,List.nil_append,List.drop_zero] at order
    exact ⟨u,left,rfl,left_stored,order,drops.same⟩
  · intro rest survived
    obtain ⟨flag,left,left_stored,order⟩ := drops.leaves rest survived
    dsimp only at left_stored held
    change outcome = some (false || !(row.artists.drop 0).all (s.named (creditedNames newTrack))) at flag
    subst flag
    rw [List.take_zero,List.nil_append] at order
    obtain ⟨⟨after,after_stored,adds⟩,changed⟩ := @addArtists_adds oldTrack.id
      (u,false || !(row.artists.drop 0).all (s.named (creditedNames newTrack))) _ held left_stored
      (creditedNames newTrack)
    have same : u.artistName = s.artistName := drops.same
    refine ⟨_,_,after,left,rfl,?_,after_stored,order,adds.tied,adds.nodup,adds.from_names,?_,adds.adds⟩
    swap
    · intro artist member
      obtain ⟨there,named⟩ := adds.keeps artist member
      exact ⟨there,by rw [named]; exact congrFun same artist⟩
    rw [changed]
    unfold Recredits
    have listed : (false || !(row.artists.drop 0).all (s.named (creditedNames newTrack))) = true ↔
        ∃ artist ∈ row.artists, s.named (creditedNames newTrack) artist = false := by
      simp [List.all_eq_false]
    rw [listed]
    by_cases drop : ∃ artist ∈ row.artists, s.named (creditedNames newTrack) artist = false
    · exact iff_of_true (.inl drop) (.inl drop)
    · rw [or_iff_right drop,or_iff_right drop]
      have all : ∀ artist ∈ row.artists, s.named (creditedNames newTrack) artist = true := by
        intro artist member
        by_contra other
        exact drop ⟨artist,member,Bool.not_eq_true _ ▸ other⟩
      rw [survivors_all all] at survived
      cases survived
      have known (name : String) : u.Names left name ↔ s.Names row.artists name := by
        rw [names_perm order]
        unfold Names
        rw [same]
      dsimp only
      simp only [known]

/-- The artists of the track have exactly the names, each of them lists the track once, and no other
artist lists it. -/
def Credited (s : Store) (track : Nat) (names : List String) : Prop :=
  ∃ row, row? s.tracks track = some row ∧
    (∀ name, name ∈ row.artists.map s.artistName ↔ name ∈ names.map some) ∧
    ∀ artist listed, row? s.artists artist = some listed →
      listed.tracks.count track = if artist ∈ row.artists then 1 else 0

theorem credited_iff {track : Nat} {row : TrackRow} (tied : s.Tied)
    (stored : row? s.tracks track = some row) (names : List String) :
    s.Credited track names ↔
      (∀ name, name ∈ row.artists.map s.artistName ↔ name ∈ names.map some) ∧ row.artists.Nodup := by
  have counts (artist : Nat) (listed : ArtistRow) (found : row? s.artists artist = some listed) :
      listed.tracks.count track = row.artists.count artist := by
    have balanced := tied.artist track artist
    simpa [artistPairing,stored,found] using balanced.symm
  constructor
  · rintro ⟨_,found,exactly,once⟩
    cases stored.symm.trans found
    refine ⟨exactly,List.nodup_iff_count_le_one.mpr fun artist => ?_⟩
    by_cases member : artist ∈ row.artists
    · have linked : artist ∈ s.artistPairing.forward track := by
        simpa [artistPairing,stored] using member
      obtain ⟨listed,found⟩ := tied.listed_artist Pairing.balanced_discipline linked
      have one : row.artists.count artist = 1 := by
        rw [← counts artist listed found,once artist listed found,if_pos member]
      exact Nat.le_of_eq one
    · rw [List.count_eq_zero_of_not_mem member]
      exact Nat.zero_le _
  · rintro ⟨exactly,nodup⟩
    refine ⟨row,stored,exactly,fun artist listed found => ?_⟩
    rw [counts artist listed found]
    split
    next member => exact List.count_eq_one_of_mem nodup member
    next absent => exact List.count_eq_zero_of_not_mem absent

theorem moveGame_artists (s : Store) (newTrack : Track) (oldTrack : TrackRow) :
    (s.moveGame newTrack oldTrack).artists = s.artists := by
  have left : (s.leaveGame oldTrack).artists = s.artists := by
    unfold leaveGame
    split <;> rfl
  rw [← left]
  unfold moveGame
  generalize s.leaveGame oldTrack = left
  change (left.getGame newTrack.platformName newTrack.gameTitle).2.artists = left.artists
  unfold getGame
  split <;> rfl

theorem updateGame_row {oldTrack row : TrackRow} (stored : row? s.tracks oldTrack.id = some row)
    (newTrack : Track) : (∃ game, row? (s.updateGame newTrack oldTrack).1.tracks oldTrack.id =
        some {row with game := game}) ∧ (s.updateGame newTrack oldTrack).1.artists = s.artists := by
  have moved : (∃ game, row? (if oldTrack.gameTitle ≠ newTrack.gameTitle then
      s.moveGame newTrack oldTrack else s).tracks oldTrack.id = some {row with game := game}) ∧
      (if oldTrack.gameTitle ≠ newTrack.gameTitle then
        s.moveGame newTrack oldTrack else s).artists = s.artists := by
    split
    · exact ⟨⟨_,(moveGame_effect stored newTrack).2.2⟩,moveGame_artists s newTrack oldTrack⟩
    · exact ⟨⟨row.game,stored⟩,rfl⟩
  unfold updateGame
  dsimp only
  split
  · exact moved
  · exact moved

theorem updateTrack_writes {mode : Iteration} {oldTrack : TrackRow} {newTrack : Track} :
    ((s.modifyTrack oldTrack.id fun row => {row with title := newTrack.title}).updateArtists mode
        newTrack oldTrack).2 = none → (s.updateTrack mode oldTrack newTrack).2 = none := by
  intro threw
  unfold updateTrack
  dsimp only
  split
  · rfl
  next outcome => rw [outcome] at threw; cases threw

theorem updateTrack_row {mode : Iteration} {u : Store} {oldTrack row : TrackRow} {newTrack : Track}
    {artistsChanged : Bool} (credited : (s.modifyTrack oldTrack.id fun row =>
      {row with title := newTrack.title}).updateArtists mode newTrack oldTrack = (u,some artistsChanged))
    (stored : row? u.tracks oldTrack.id = some row) :
    ∃ t changed game, s.updateTrack mode oldTrack newTrack = (t,some changed) ∧
      row? t.tracks oldTrack.id = some {row with
        game := game, path := newTrack.path, trackNumber := newTrack.trackNumber
        trackLength := newTrack.trackLength, introLength := newTrack.introLength
        loopLength := newTrack.loopLength} ∧ t.artistName = u.artistName := by
  obtain ⟨⟨game,played⟩,artists⟩ := updateGame_row stored newTrack
  have named : (u.updateGame newTrack oldTrack).1.artistName = u.artistName := by
    unfold artistName
    rw [artists]
  unfold updateTrack
  dsimp only
  rw [credited]
  refine ⟨_,_,game,rfl,?_,named⟩
  rw [row?_modifyTrack (by exact fun _ => rfl),if_pos rfl,played]
  rfl

end Credits

/-- An update does not throw and leaves the track with the artists of the new text. -/
def RecreditRight (mode : Iteration) (s : Store) (row : TrackRow) (newTrack : Track) : Prop :=
  ∃ t changed, s.updateTrack mode row newTrack = (t,some changed) ∧
    t.Credited row.id (creditedNames newTrack)

/-- The text is as it was and its artists right already, or the artists to drop are spared
by the loop and each of the others is listed once. -/
def Recreditable (mode : Iteration) (s : Store) (row : TrackRow) (newTrack : Track) : Prop :=
  if row.artistText = newTrack.artistText then
    (∀ name, name ∈ row.artists.map s.artistName ↔ name ∈ (creditedNames newTrack).map some) ∧
      row.artists.Nodup
  else Spared (s.named (creditedNames newTrack)) row.artists mode ∧
    (row.artists.filter (s.named (creditedNames newTrack))).Nodup

section Recredit
variable {s : Store} {mode : Iteration} {row : TrackRow} {newTrack : Track}

theorem retitled_row (stored : row? s.tracks row.id = some row) (title : Option String) :
    row? (s.modifyTrack row.id fun row => {row with title := title}).tracks row.id =
      some {row with title := title} := by
  rw [row?_modifyTrack (by exact fun _ => rfl),if_pos rfl,stored]
  rfl

theorem retitled_tied (tied : s.Tied) (track : Nat) (title : Option String) :
    (s.modifyTrack track fun row => {row with title := title}).Tied :=
  Held.modifyTrack tied (by exact fun _ => ⟨rfl,rfl,rfl⟩) track

theorem recredit_same (tied : s.Tied) (stored : row? s.tracks row.id = some row)
    (same : row.artistText = newTrack.artistText) : RecreditRight mode s row newTrack ↔
      (∀ name, name ∈ row.artists.map s.artistName ↔ name ∈ (creditedNames newTrack).map some) ∧
        row.artists.Nodup := by
  have last := updateTrack_held Pairing.balanced_discipline mode tied stored newTrack
  have retitled := retitled_row stored newTrack.title
  obtain ⟨t,changed,game,updated,written,named⟩ :=
    updateTrack_row (updateArtists_same mode _ same) retitled
  rw [updated] at last
  have exactly := credited_iff last written (creditedNames newTrack)
  rw [named] at exactly
  unfold RecreditRight
  rw [updated]
  constructor
  · rintro ⟨_,_,returned,credited⟩
    cases returned
    exact exactly.mp credited
  · intro right
    exact ⟨t,changed,rfl,exactly.mpr right⟩

theorem recredit_other (tied : s.Tied) (stored : row? s.tracks row.id = some row)
    (differs : row.artistText ≠ newTrack.artistText) : RecreditRight mode s row newTrack ↔
      Spared (s.named (creditedNames newTrack)) row.artists mode ∧
        (row.artists.filter (s.named (creditedNames newTrack))).Nodup := by
  have last := updateTrack_held Pairing.balanced_discipline mode tied stored newTrack
  have titled := retitled_tied tied row.id newTrack.title
  have retitled := retitled_row stored newTrack.title
  obtain ⟨throws,leaves⟩ := @updateArtists_spec _ mode newTrack row _ titled retitled rfl differs
  unfold RecreditRight
  constructor
  · rintro ⟨t,changed,updated,credited⟩
    -- the loop has not thrown
    cases survived : survivors (s.named (creditedNames newTrack)) row.artists mode with
    | none =>
      obtain ⟨_,_,thrown,_⟩ := throws survived
      have threw := updateTrack_writes (congrArg Prod.snd thrown)
      rw [updated] at threw
      cases threw
    | some rest =>
      obtain ⟨u,artistsChanged,after,left,outcome,_,after_stored,order,adds⟩ := leaves rest survived
      obtain ⟨v,_,game,again,written,named⟩ := updateTrack_row outcome after_stored
      rw [updated] at again last
      cases again
      obtain ⟨exactly,nodup⟩ := (credited_iff last written _).mp credited
      rw [named] at exactly
      have kept : ∀ artist ∈ rest, s.named (creditedNames newTrack) artist = true := by
        intro artist member
        obtain ⟨still,renamed⟩ := adds.keeps artist (order.mem_iff.mpr member)
        have listed := (exactly _).mp (List.mem_map_of_mem (f := u.artistName) still)
        obtain ⟨name,among,same⟩ := List.mem_map.mp listed
        rw [renamed] at same
        exact List.any_eq_true.mpr ⟨name,among,decide_eq_true same.symm⟩
      have spared := (survivors_right_iff _ _ mode).mp ⟨rest,survived,kept⟩
      have filtered := survivors_filter mode spared
      rw [survived] at filtered
      cases filtered
      exact ⟨spared,order.nodup_iff.mp (adds.nodup.mp nodup)⟩
  · rintro ⟨spared,nodup⟩
    obtain ⟨u,artistsChanged,after,left,outcome,_,after_stored,order,adds⟩ :=
      leaves _ (survivors_filter mode spared)
    obtain ⟨t,changed,game,updated,written,named⟩ := updateTrack_row outcome after_stored
    rw [updated] at last
    refine ⟨t,changed,updated,(credited_iff last written _).mpr ⟨?_,?_⟩⟩
    · intro name
      rw [named]
      constructor
      · intro listed
        obtain ⟨artist,member,same⟩ := List.mem_map.mp listed
        subst same
        rcases adds.from_names artist member with old | ⟨other,among,known⟩
        · rw [(adds.keeps artist old).2]
          have kept := (List.mem_filter.mp (order.mem_iff.mp old)).2
          obtain ⟨other,among,known⟩ := List.any_eq_true.mp kept
          exact List.mem_map.mpr ⟨other,among,(of_decide_eq_true known).symm⟩
        · exact List.mem_map.mpr ⟨other,among,known.symm⟩
      · intro listed
        obtain ⟨other,among,rfl⟩ := List.mem_map.mp listed
        obtain ⟨artist,member,known⟩ := adds.adds other among
        exact List.mem_map.mpr ⟨artist,member,known⟩
    · exact adds.nodup.mpr (order.nodup_iff.mpr nodup)

end Recredit
end Store

theorem step_tied (mode : Iteration) {s t : Store} {command : Command} (tied : s.Tied)
    (taken : step mode s command = some t) : t.Tied := by
  have closed := @Pairing.balanced_discipline Nat Nat
  cases command with
  | addTrack track =>
    cases Option.some.inj taken
    exact Store.addTrack_balanced tied track
  | updateTrack oldTrack newTrack =>
    obtain ⟨row,stored,rfl⟩ := Option.map_eq_some_iff.mp taken
    have key := row?_key stored
    subst key
    exact Store.updateTrack_held closed mode tied stored newTrack
  | deleteTrack track =>
    obtain ⟨row,_,rfl⟩ := Option.map_eq_some_iff.mp taken
    exact Store.deleteTrack_held closed tied row.id
  | deleteGame game =>
    obtain ⟨row,_,rfl⟩ := Option.map_eq_some_iff.mp taken
    exact Store.deleteGame_held tied row.id
  | deleteArtist artist =>
    obtain ⟨row,_,rfl⟩ := Option.map_eq_some_iff.mp taken
    exact Store.deleteArtist_held closed tied row.id
  | clearAll =>
    cases Option.some.inj taken
    exact Store.clearAll_held closed tied

theorem reached_tied {mode : Iteration} {commands : List Command} {s : Store}
    (reached : Run.exec (step mode) .empty commands = some s) : s.Tied :=
  Run.invariant_of_step (fun _ _ _ tied taken => step_tied mode tied taken) Store.empty_sound.tied reached

/-- In every store reached, updating a track credits it rightly exactly when its text is unchanged
and its artists right already, or the artists to drop are spared and the others listed once. -/
theorem recredit_iff {mode : Iteration} {commands : List Command} {s : Store} {row : TrackRow}
    (reached : Run.exec (step mode) .empty commands = some s)
    (stored : row? s.tracks row.id = some row) (newTrack : Track) :
    Store.RecreditRight mode s row newTrack ↔ Store.Recreditable mode s row newTrack := by
  have tied := reached_tied reached
  unfold Store.Recreditable
  split
  next same => exact Store.recredit_same tied stored same
  next differs => exact Store.recredit_other tied stored differs

/-- The last but one of three artists goes, and one is added. -/
theorem recredit_iff_replaced : ∃ s row,
    Run.exec (step .failFast) .empty [.addTrack (creditedTrack "A, B, C")] = some s ∧
    row? s.tracks 0 = some row ∧
    Store.RecreditRight .failFast s row (creditedTrack "A, C, D") := by
  refine ⟨_,_,rfl,rfl,(@recredit_iff .failFast [.addTrack (creditedTrack "A, B, C")] _ _ rfl rfl
    (creditedTrack "A, C, D")).mpr ?_⟩
  unfold Store.Recreditable
  split
  next same => exact absurd same (by decide)
  next => exact ⟨by decide,by decide⟩

theorem not_recreditRight (mode : Iteration) : ∃ s row,
    Run.exec (step mode) .empty [.addTrack (creditedTrack "A, B")] = some s ∧
    row? s.tracks 0 = some row ∧ ¬ Store.RecreditRight mode s row (creditedTrack "C") := by
  refine ⟨_,_,rfl,rfl,fun right => ?_⟩
  have tied := @reached_tied mode [.addTrack (creditedTrack "A, B")] _ rfl
  have spared := ((Store.recredit_other tied rfl (by decide)).mp right).1
  cases mode with
  | shifting => exact absurd spared (by decide)
  | failFast => exact absurd spared (by decide)

/-- Of two artists that both go one stays, whatever the loop does as its list shrinks. -/
theorem recredit_skips : (∃ s row,
    Run.exec (step .shifting) .empty [.addTrack (creditedTrack "A, B")] = some s ∧
    row? s.tracks 0 = some row ∧ ¬ Store.RecreditRight .shifting s row (creditedTrack "C")) ∧
    ∃ s row, Run.exec (step .failFast) .empty [.addTrack (creditedTrack "A, B")] = some s ∧
      row? s.tracks 0 = some row ∧ ¬ Store.RecreditRight .failFast s row (creditedTrack "C") :=
  ⟨not_recreditRight .shifting,not_recreditRight .failFast⟩

end Chipbox.Library
