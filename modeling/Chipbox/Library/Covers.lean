import Chipbox.Library.Artwork
import Chipbox.Library.Tags

/-! When an image in a folder becomes that of the folder's game. -/
namespace Chipbox.Library
open Table

def isMusic (path : String) : Bool := (extensionsMusic.lookup (extension path)).isSome

def isPicture (path : String) : Bool := extension path ∈ extensionsImages

def readable (readers : Readers) (path : String) : Bool :=
  if extension path ∈ extensionsMultiTrack then
    ((readMultipleTrackFile readers path).getD []) ≠ []
  else (readSingleTrackFile readers path 0).isSome

/-- One turn of the loop of `scanFolder`, at a child that is not hidden. -/
structure Turn where
  child : Entry
  before : Scan
  after : Scan
  /-- the folder's game after the turn -/
  game : Option Nat

/-- The turns of `scanChildren`. -/
def turns (mode : Iteration) (readers : Readers) :
    Scan → Option Nat → Int → List Entry → List Turn
  | _,_,_,[] => []
  | s,folderGame,trackCount,.folder path children::rest =>
    if isHidden path then turns mode readers s folderGame trackCount rest
    else match scanFolder mode readers s (.folder path children) with
      | none => []
      | some after =>
        ⟨.folder path children,s,after,folderGame⟩::turns mode readers after folderGame trackCount rest
  | s,folderGame,trackCount,.file path::rest =>
    if isHidden path then turns mode readers s folderGame trackCount rest
    else match scanFile mode readers s folderGame trackCount path with
      | none => []
      | some (after,game,trackCount) =>
        ⟨.file path,s,after,game⟩::turns mode readers after game trackCount rest

namespace Store

/-- The `artLocal` of a game. -/
def artOf (s : Store) (game : Nat) : Option String := (s.art? game).join

end Store

def Belongs (readers : Readers) (game : Nat) (turn : Turn) : Prop :=
  match turn.child with
  | .file path => isMusic path = true → readable readers path = true →
    turn.game = some game ∧ (turn.after.store.art? game).isSome = true
  | .folder .. => True

instance (readers : Readers) (game : Nat) : (turn : Turn) → Decidable (Belongs readers game turn)
  | ⟨.file _,_,_,_⟩ => inferInstanceAs (Decidable (_ → _ → _ ∧ _))
  | ⟨.folder .. ,_,_,_⟩ => .isTrue trivial

def OneGame (readers : Readers) (game : Nat) (taken : List Turn) : Prop :=
  ∀ turn ∈ taken, Belongs readers game turn

def Covered (children : List Entry) (game : Nat) (s : Store) : Prop :=
  ∃ path, .file path ∈ children ∧ isHidden path = false ∧ isPicture path ∧
    s.artOf game = some (artLocal path)

/-- Some image comes after a readable music file with no unreadable one between them, or the game had
one before; and no folder inside that comes later gives the game another. `known` tells whether the
last music file was readable. -/
def Illustrated (readers : Readers) (game : Nat) (known : Bool) (shown : Prop) : List Turn → Prop
  | [] => shown
  | turn::rest =>
    match turn.child with
    | .folder .. => Illustrated readers game known
        (shown ∧ turn.after.store.artOf game = turn.before.store.artOf game) rest
    | .file path =>
      if isMusic path then Illustrated readers game (readable readers path) shown rest
      else if isPicture path then Illustrated readers game known (shown ∨ known = true) rest
      else Illustrated readers game known shown rest

def attaches (readers : Readers) : Bool → List Entry → Bool
  | _,[] => false
  | known,.folder .. :: rest => attaches readers known rest
  | known,.file path::rest =>
    if isHidden path then attaches readers known rest
    else if isMusic path then attaches readers (readable readers path) rest
    else if isPicture path then known || attaches readers known rest
    else attaches readers known rest

def Apart (readers : Readers) (children : List Entry) : Prop :=
  ∀ path inner, .folder path inner ∈ children → isHidden path = false →
    ∀ image, .image image ∈ folderVisits readers (.folder path inner) → .file image ∉ children

section Visits
variable {mode : Iteration} {readers : Readers}

theorem artLocal_injective {first second : String} (same : artLocal first = artLocal second) :
    first = second := by
  have lists := congrArg String.toList same
  unfold artLocal at lists
  rw [String.toList_append,String.toList_append,List.append_right_inj] at lists
  exact String.toList_inj.mp lists

theorem art?_updateGameArt (s : Store) (game other : Nat) (url : String) :
    (s.updateGameArt game url).art? other =
      if other = game then (s.art? other).map fun _ => some url else s.art? other := by
  unfold Store.art? Store.updateGameArt Store.modifyGame
  rw [row?_modify s.games (by exact fun _ => rfl)]
  split
  next same =>
    subst same
    rw [Option.map_map,Option.map_map]
    rfl
  next => rfl

theorem SameArt.artOf {s t : Store} (same : Store.SameArt s t) (game : Nat) : t.artOf game = s.artOf game := by
  unfold Store.artOf
  rcases same game with kept | ⟨fresh,bare⟩
  · rw [kept]
  · rw [fresh,bare]
    rfl

theorem SameArt.stored {s t : Store} (same : Store.SameArt s t) {game : Nat} (stored : (s.art? game).isSome) :
    (t.art? game).isSome := by
  rcases same game with kept | ⟨fresh,bare⟩
  · rw [kept]
    exact stored
  · rw [fresh] at stored
    cases stored

theorem artOf_visit {w w' : Walk} {v : Visit} (taken : visit mode w v = some w') (game : Nat) :
    (w'.scan.store.artOf game = w.scan.store.artOf game ∨
      ∃ image, v = .image image ∧ w'.scan.store.artOf game = some (artLocal image)) ∧
    ((w.scan.store.art? game).isSome → (w'.scan.store.art? game).isSome) := by
  cases v with
  | image image =>
    obtain ⟨_,rfl⟩ | ⟨current,_,rfl⟩ := visit_image taken
    · exact ⟨.inl rfl,id⟩
    · unfold Store.artOf
      dsimp only
      rw [art?_updateGameArt]
      by_cases same : game = current
      · rw [if_pos same]
        cases w.scan.store.art? game with
        | none => exact ⟨.inl rfl,id⟩
        | some art => exact ⟨.inr ⟨image,rfl,rfl⟩,fun _ => rfl⟩
      · rw [if_neg same]
        exact ⟨.inl rfl,id⟩
  | _ =>
    have same := (sameArt_edited mode).visit_plain (by intro path same; cases same) taken
    exact ⟨.inl (SameArt.artOf same game),SameArt.stored same⟩

theorem artOf_exec {w w' : Walk} {visits : List Visit} (run : Run.exec (visit mode) w visits = some w')
    (game : Nat) : (w'.scan.store.artOf game = w.scan.store.artOf game ∨
      ∃ image, .image image ∈ visits ∧ w'.scan.store.artOf game = some (artLocal image)) ∧
    ((w.scan.store.art? game).isSome → (w'.scan.store.art? game).isSome) := by
  induction visits generalizing w with
  | nil =>
    cases run
    exact ⟨.inl rfl,id⟩
  | cons v rest ih =>
    obtain ⟨middle,taken,run⟩ := Run.exec_cons.mp run
    obtain ⟨first,there⟩ := artOf_visit taken game
    obtain ⟨later,still⟩ := ih run
    refine ⟨?_,fun stored => still (there stored)⟩
    rcases later with kept | ⟨image,member,given⟩
    · rw [kept]
      rcases first with same | ⟨image,rfl,given⟩
      · exact .inl same
      · exact .inr ⟨image,List.mem_cons_self,given⟩
    · exact .inr ⟨image,List.mem_cons_of_mem _ member,given⟩

/-- A folder inside leaves a game its image or gives it one from below. -/
theorem artOf_scanFolder {s t : Scan} {entry : Entry} (scanned : scanFolder mode readers s entry = some t)
    (game : Nat) : (t.store.artOf game = s.store.artOf game ∨
      ∃ image, .image image ∈ folderVisits readers entry ∧ t.store.artOf game = some (artLocal image)) ∧
    ((s.store.art? game).isSome → (t.store.art? game).isSome) := by
  have run := @scanFolder_exec mode readers s [] entry
  rw [scanned] at run
  exact artOf_exec run game

end Visits

section Files
variable {mode : Iteration} {readers : Readers} {path : String}

theorem not_music_of_picture (picture : isPicture path = true) :
    extension path ≠ "" ∧ isMusic path = false := by
  unfold isPicture extensionsImages at picture
  unfold isMusic
  rcases List.mem_cons.mp (of_decide_eq_true picture) with jpg | other
  · rw [jpg]
    decide +kernel
  · rw [List.mem_singleton.mp other]
    decide +kernel

theorem scanFile_picture (picture : isPicture path = true) (s : Scan) (folderGame : Option Nat)
    (trackCount : Int) : scanFile mode readers s folderGame trackCount path =
      match folderGame with
      | some game =>
        some ({s with store := s.store.updateGameArt game (artLocal path)},folderGame,trackCount)
      | none => some (s,folderGame,trackCount) := by
  obtain ⟨named,tone⟩ := not_music_of_picture picture
  unfold isMusic at tone
  unfold scanFile
  dsimp only
  refine (if_neg named).trans ((if_neg (by rw [tone]; exact nofun)).trans
    ((if_pos (of_decide_eq_true picture)).trans ?_))
  cases folderGame <;> rfl

theorem scanFile_other (picture : isPicture path = false) (tone : isMusic path = false) (s : Scan)
    (folderGame : Option Nat) (trackCount : Int) :
    scanFile mode readers s folderGame trackCount path = some (s,folderGame,trackCount) := by
  have silent : ¬ (extensionsMusic.lookup (extension path)).isSome = true := Bool.not_eq_true _ ▸ tone
  have plain : extension path ∉ extensionsImages := of_decide_eq_false picture
  unfold scanFile
  by_cases unnamed : extension path = ""
  · rw [if_pos unnamed]
  · rw [if_neg unnamed,if_neg silent,if_neg plain]

theorem fileVisits_music (tone : isMusic path = true) (trackCount : Int) :
    ∀ image, .image image ∉ fileVisits readers trackCount path := by
  intro image listed
  unfold fileVisits at listed
  unfold isMusic at tone
  dsimp only at listed
  rw [if_pos tone] at listed
  split at listed
  · cases listed
  · split at listed
    · split at listed
      · cases List.mem_singleton.mp listed
      · rcases List.mem_cons.mp listed with same | listed
        · cases same
        · rcases List.mem_append.mp listed with inside | last
          · obtain ⟨_,_,same⟩ := List.mem_map.mp inside
            cases same
          · cases List.mem_singleton.mp last
    · split at listed
      · cases List.mem_singleton.mp listed
      · cases List.mem_singleton.mp listed

theorem artOf_music {s t : Scan} {folderGame game' : Option Nat} {trackCount trackCount' : Int}
    (tone : isMusic path = true)
    (scanned : scanFile mode readers s folderGame trackCount path = some (t,game',trackCount')) (game : Nat) :
    t.store.artOf game = s.store.artOf game := by
  have run := @scanFile_exec mode readers s folderGame [] trackCount path
  rw [scanned] at run
  rcases (artOf_exec run game).1 with kept | ⟨image,listed,_⟩
  · exact kept
  · exact absurd listed (fileVisits_music tone trackCount image)

theorem checkTracks_game {s t : Scan} {game game' : Option Nat} {newTracks left tracks : List Track}
    (checked : checkTracks mode path s game newTracks tracks = some (t,game',left)) :
    (game'.isSome ∨ left ≠ []) ↔ (game.isSome ∨ newTracks ≠ []) ∨ tracks ≠ [] := by
  induction tracks generalizing s game newTracks with
  | nil =>
    cases checked
    simp
  | cons track rest ih =>
    unfold checkTracks at checked
    split at checked
    · cases checked
    · rw [ih checked]
      simp
    · rw [ih checked]
      simp

theorem addTracks_game (s : Store) (game : Option Nat) (tracks : List Track) :
    (addTracks s game tracks).2.isSome ↔ game.isSome ∨ tracks ≠ [] := by
  induction tracks generalizing s game with
  | nil => simp [addTracks]
  | cons track rest ih =>
    unfold addTracks
    rw [ih]
    simp

/-- A file of several tracks leaves a game exactly when it has a track. -/
theorem readMultipleTracks_game {s t : Scan} {game : Option Nat}
    (read : readMultipleTracks mode readers s path = some (t,game)) :
    game.isSome ↔ (readMultipleTrackFile readers path).getD [] ≠ [] := by
  unfold readMultipleTracks at read
  cases known : readMultipleTrackFile readers path with
  | none =>
    rw [known] at read
    cases read
    simp
  | some tracks =>
    rw [known] at read
    dsimp only at read
    split at read
    · cases read
    next v last newTracks checked =>
      cases read
      rw [Option.getD_some,addTracks_game v.store last newTracks,checkTracks_game checked]
      simp

theorem game_music {s t : Scan} {folderGame game : Option Nat} {trackCount trackCount' : Int}
    (tone : isMusic path = true)
    (scanned : scanFile mode readers s folderGame trackCount path = some (t,game,trackCount')) :
    game.isSome = readable readers path := by
  unfold isMusic at tone
  have named : extension path ≠ "" := by
    intro unnamed
    rw [unnamed] at tone
    exact absurd tone (by decide +kernel)
  unfold scanFile at scanned
  dsimp only at scanned
  rw [if_neg named,if_pos tone] at scanned
  unfold readable
  split at scanned
  next multi =>
    rw [if_pos multi]
    obtain ⟨⟨u,found⟩,read,same⟩ := Option.map_eq_some_iff.mp scanned
    cases same
    rw [Bool.eq_iff_iff,decide_eq_true_iff]
    exact readMultipleTracks_game read
  next lone =>
    rw [if_neg lone]
    obtain ⟨⟨u,found⟩,read,same⟩ := Option.map_eq_some_iff.mp scanned
    cases same
    exact (readSingleTrack_game read).trans (readSingleTrackFile_isSome path trackCount 0)

end Files

section Turns
variable {mode : Iteration} {readers : Readers} {game : Nat}

/-- What the loop knows between two turns: its variable holds the game exactly when the last music
file was readable. -/
structure Knows (game : Nat) (known : Bool) (folderGame : Option Nat) (s : Store) : Prop where
  folderGame : folderGame = if known then some game else none
  stored : known = true → (s.art? game).isSome

theorem OneGame.rest {turn : Turn} {rest : List Turn} (one : OneGame readers game (turn::rest)) :
    OneGame readers game rest := fun other listed => one other (List.mem_cons_of_mem _ listed)

/-- After a music file the loop knows whether that one was readable. -/
theorem knows_music {path : String} {s t : Scan} {folderGame next : Option Nat}
    {trackCount trackCount' : Int} (tone : isMusic path = true)
    (belongs : Belongs readers game ⟨.file path,s,t,next⟩)
    (scanned : scanFile mode readers s folderGame trackCount path = some (t,next,trackCount')) :
    Knows game (readable readers path) next t.store := by
  have left := game_music tone scanned
  cases read : readable readers path with
  | false =>
    rw [read] at left
    exact ⟨Option.isNone_iff_eq_none.mp (Option.isSome_eq_false_iff.mp left),nofun⟩
  | true =>
    obtain ⟨own,stored⟩ := belongs tone read
    exact ⟨own,fun _ => stored⟩

/-- An image leaves what the loop knows, and becomes that of the game when there is one. -/
theorem Knows.picture {path : String} {s t : Scan} {folderGame next : Option Nat}
    {trackCount trackCount' : Int} {known : Bool} (knows : Knows game known folderGame s.store)
    (picture : isPicture path = true)
    (scanned : scanFile mode readers s folderGame trackCount path = some (t,next,trackCount')) :
    Knows game known next t.store ∧
      t.store = if known then s.store.updateGameArt game (artLocal path) else s.store := by
  rw [scanFile_picture picture,knows.folderGame] at scanned
  cases known with
  | false =>
    cases scanned
    exact ⟨⟨rfl,nofun⟩,rfl⟩
  | true =>
    cases scanned
    refine ⟨⟨rfl,fun there => ?_⟩,rfl⟩
    rw [art?_updateGameArt,if_pos rfl,Option.isSome_map]
    exact knows.stored there

theorem covered_congr {children : List Entry} {s t : Store} (same : t.artOf game = s.artOf game) :
    Covered children game t ↔ Covered children game s := by
  unfold Covered
  rw [same]

/-- An image becomes that of the game exactly when the game is known. -/
theorem covered_picture {children : List Entry} {path : String} {s : Store} {known : Bool}
    (member : .file path ∈ children) (visible : isHidden path = false) (picture : isPicture path = true)
    (stored : known = true → (s.art? game).isSome) :
    Covered children game (if known then s.updateGameArt game (artLocal path) else s) ↔
      Covered children game s ∨ known = true := by
  cases known with
  | false =>
    rw [if_neg nofun]
    simp
  | true =>
    rw [if_pos rfl]
    refine iff_of_true ⟨path,member,visible,picture,?_⟩ (.inr rfl)
    obtain ⟨art,there⟩ := Option.isSome_iff_exists.mp (stored rfl)
    unfold Store.artOf
    rw [art?_updateGameArt,if_pos rfl,there]
    rfl

theorem covered_folder {children inner : List Entry} {path : String} {s t : Scan}
    (apart : Apart readers children) (member : .folder path inner ∈ children)
    (visible : isHidden path = false)
    (scanned : scanFolder mode readers s (.folder path inner) = some t) :
    Covered children game t.store ↔
      Covered children game s.store ∧ t.store.artOf game = s.store.artOf game := by
  rcases (artOf_scanFolder scanned game).1 with same | ⟨image,listed,given⟩
  · rw [covered_congr same]
    exact (and_iff_left same).symm
  · have foreign : ¬ Covered children game t.store := by
      rintro ⟨other,owned,_,_,art⟩
      rw [given,Option.some.injEq] at art
      cases artLocal_injective art
      exact apart path inner member visible image listed owned
    refine iff_of_false foreign ?_
    rintro ⟨covered,same⟩
    exact foreign ((covered_congr same).mpr covered)

theorem scanChildren_covered {all : List Entry} (apart : Apart readers all) {s t : Scan}
    {folderGame : Option Nat} {trackCount : Int} {known : Bool} {shown : Prop} (children : List Entry)
    (within : children ⊆ all) (knows : Knows game known folderGame s.store)
    (shows : shown ↔ Covered all game s.store)
    (one : OneGame readers game (turns mode readers s folderGame trackCount children))
    (scanned : scanChildren mode readers s folderGame trackCount children = some t) :
    Covered all game t.store ↔
      Illustrated readers game known shown (turns mode readers s folderGame trackCount children) := by
  induction children generalizing s folderGame trackCount known shown with
  | nil =>
    cases scanned
    exact shows.symm
  | cons child rest ih =>
    have inside := List.subset_of_cons_subset within
    have member := within List.mem_cons_self
    cases child with
    | folder path inner =>
      unfold scanChildren at scanned
      unfold turns at one ⊢
      by_cases hidden : isHidden path = true
      · rw [if_pos hidden] at scanned one ⊢
        exact ih inside knows shows one scanned
      · rw [if_neg hidden] at scanned one ⊢
        cases visited : scanFolder mode readers s (.folder path inner) with
        | none =>
          rw [visited] at scanned
          cases scanned
        | some after =>
          rw [visited] at scanned one
          have effect := artOf_scanFolder visited game
          refine ih inside ⟨knows.folderGame,fun there => effect.2 (knows.stored there)⟩ ?_ one.rest scanned
          rw [shows,covered_folder apart member (Bool.not_eq_true _ ▸ hidden) visited]
    | file path =>
      unfold scanChildren at scanned
      unfold turns at one ⊢
      by_cases hidden : isHidden path = true
      · rw [if_pos hidden] at scanned one ⊢
        exact ih inside knows shows one scanned
      · rw [if_neg hidden] at scanned one ⊢
        cases visited : scanFile mode readers s folderGame trackCount path with
        | none =>
          rw [visited] at scanned
          cases scanned
        | some result =>
          obtain ⟨after,next,count⟩ := result
          rw [visited] at scanned one
          dsimp only at scanned one ⊢
          unfold Illustrated
          dsimp only
          by_cases tone : isMusic path = true
          · rw [if_pos tone]
            have same := artOf_music tone visited game
            exact ih inside (knows_music tone (one _ List.mem_cons_self) visited)
              (shows.trans (covered_congr same).symm) one.rest scanned
          · rw [if_neg tone]
            by_cases picture : isPicture path = true
            · rw [if_pos picture]
              obtain ⟨knows',gives⟩ := knows.picture picture visited
              refine ih inside knows' ?_ one.rest scanned
              rw [gives,shows]
              exact (covered_picture member (Bool.not_eq_true _ ▸ hidden) picture knows.stored).symm
            · rw [if_neg picture]
              rw [scanFile_other (Bool.not_eq_true _ ▸ picture) (Bool.not_eq_true _ ▸ tone)] at visited
              cases visited
              exact ih inside knows shows one.rest scanned

/-- Without folders inside it is the order of the files that decides. -/
theorem illustrated_flat {s t : Scan} {folderGame : Option Nat} {trackCount : Int} {known : Bool}
    {shown : Prop} {children : List Entry}
    (flat : ∀ path inner, .folder path inner ∈ children → isHidden path = true)
    (scanned : scanChildren mode readers s folderGame trackCount children = some t) :
    Illustrated readers game known shown (turns mode readers s folderGame trackCount children) ↔
      shown ∨ attaches readers known children = true := by
  induction children generalizing s folderGame trackCount known shown with
  | nil => exact (or_iff_left nofun).symm
  | cons child rest ih =>
    have later : ∀ path inner, .folder path inner ∈ rest → isHidden path = true :=
      fun path inner member => flat path inner (List.mem_cons_of_mem _ member)
    cases child with
    | folder path inner =>
      have hidden := flat path inner List.mem_cons_self
      unfold scanChildren at scanned
      unfold turns attaches
      rw [if_pos hidden] at scanned ⊢
      exact ih later scanned
    | file path =>
      unfold scanChildren at scanned
      unfold turns attaches
      by_cases hidden : isHidden path = true
      · rw [if_pos hidden] at scanned ⊢
        rw [if_pos hidden]
        exact ih later scanned
      · rw [if_neg hidden] at scanned ⊢
        rw [if_neg hidden]
        cases visited : scanFile mode readers s folderGame trackCount path with
        | none =>
          rw [visited] at scanned
          cases scanned
        | some result =>
          obtain ⟨after,next,count⟩ := result
          rw [visited] at scanned
          dsimp only at scanned ⊢
          unfold Illustrated
          dsimp only
          by_cases tone : isMusic path = true
          · rw [if_pos tone,if_pos tone]
            exact ih later scanned
          · rw [if_neg tone,if_neg tone]
            by_cases picture : isPicture path = true
            · rw [if_pos picture,if_pos picture,ih later scanned,or_assoc,Bool.or_eq_true]
            · rw [if_neg picture,if_neg picture]
              exact ih later scanned

/-- The turns of `scanFolder`. -/
def folderTurns (mode : Iteration) (readers : Readers) (s : Scan) (path : String)
    (children : List Entry) : List Turn :=
  turns mode readers (s.onNext (.folder (fileName path))) none 1 children

/-- A scanned folder gives the game of its music one of its images exactly when one of them comes where
the game is known and no folder inside takes it away, or the game had one; without folders inside, a
game without a cover gets one exactly when an image has a readable music file before it, the last one. -/
theorem cover_shown_iff {s t : Scan} {path : String} {children : List Entry}
    (scanned : scanFolder mode readers s (.folder path children) = some t) (apart : Apart readers children)
    (one : OneGame readers game (folderTurns mode readers s path children)) :
    (Covered children game t.store ↔ Illustrated readers game false (Covered children game s.store)
      (folderTurns mode readers s path children)) ∧
    ((∀ path inner, .folder path inner ∈ children → isHidden path = true) →
      ¬ Covered children game s.store →
        (Covered children game t.store ↔ attaches readers false children = true)) := by
  have exactly : Covered children game t.store ↔ Illustrated readers game false
      (Covered children game s.store) (folderTurns mode readers s path children) :=
    scanChildren_covered apart children (List.Subset.refl _) ⟨rfl,nofun⟩ Iff.rfl one scanned
  refine ⟨exactly,fun flat bare => ?_⟩
  unfold folderTurns at exactly
  rw [exactly,illustrated_flat flat scanned,or_iff_right bare]

end Turns

def oneSong : Readers := titledReaders "Bloody Tears"

def behind : List Entry := [.file "/m/b.psf",.file "/m/c.jpg"]

def ahead : List Entry := [.file "/m/a.jpg",.file "/m/b.psf"]

theorem cover_shown_iff_behind :
    ∃ t, scanFolder .failFast oneSong ⟨.empty,[]⟩ (.folder "/m" behind) = some t ∧
      Covered behind 1 t.store := by
  have apart : Apart oneSong behind := by
    intro path inner member
    simp [behind] at member
  have one : OneGame oneSong 1 (folderTurns .failFast oneSong ⟨.empty,[]⟩ "/m" behind) := by
    unfold OneGame
    decide +kernel
  obtain ⟨t,scanned⟩ : ∃ t, scanFolder .failFast oneSong ⟨.empty,[]⟩ (.folder "/m" behind) = some t :=
    Option.isSome_iff_exists.mp (by decide +kernel)
  refine ⟨t,scanned,((cover_shown_iff scanned apart one).2 ?_ ?_).mpr (by decide +kernel)⟩
  · intro path inner member
    simp [behind] at member
  · rintro ⟨_,_,_,_,art⟩
    cases art

/-- The image sorts before the only track, and the game stays without one. -/
theorem cover_lost :
    ∃ t, scanFolder .failFast oneSong ⟨.empty,[]⟩ (.folder "/m" ahead) = some t ∧
      OneGame oneSong 1 (folderTurns .failFast oneSong ⟨.empty,[]⟩ "/m" ahead) ∧
        (t.store.art? 1).isSome ∧ ¬ Covered ahead 1 t.store := by
  have effect : (scanFolder .failFast oneSong ⟨.empty,[]⟩ (.folder "/m" ahead)).map
      (fun t => t.store.art? 1) = some (some none) := by decide +kernel
  obtain ⟨t,scanned,art⟩ := Option.map_eq_some_iff.mp effect
  refine ⟨t,scanned,?_,by rw [art]; rfl,?_⟩
  · unfold OneGame
    decide +kernel
  · rintro ⟨path,_,_,_,covered⟩
    unfold Store.artOf at covered
    rw [art] at covered
    cases covered

end Chipbox.Library
