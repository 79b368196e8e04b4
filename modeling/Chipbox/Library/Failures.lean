import Chipbox.Library.Storage
import Mathlib.Data.List.Induction

/-! What a scan leaves behind when one of its calls throws: the files and the repository are an
environment that answers each call, or throws. -/
namespace Chipbox.Library.Failures

/-- The calls of a scan that may throw: the listings and files, and the repository. -/
inductive Operation
  | findOldDbPath | clearOldDb | clearOldImages
  | getRepository | reopen | close
  | listFiles (path : String)
  | fileExists | deleteFile
  | readTrackFile (path : String)
  | getTrackFromPath | getTrack | updateTrack
  /-- `title!!` -/
  | title
  | game
  | addTrack
  /-- `addTrack` called by the mapper of a `flatMap`, which catches -/
  | addMappedTrack
  | updateGameArt
  | getTracksManaged | getGamesManaged | getArtistsManaged
  | tracks | artLocal
  | deleteTrack | deleteGame | deleteArtist
  deriving DecidableEq, Repr

/-- A call gives a number, a boolean, a list by its length, or with zero for null. -/
inductive Reply
  | threw
  | gave (value : Nat)
  deriving DecidableEq, Repr

/-- Answers a call after those made before it. -/
abbrev Env := List Operation → Operation → Reply

/-- A part of the scan, from the calls made so far; nothing where it throws. -/
abbrev Scanning := OptionT (StateM (List Operation))

section Scan
variable (env : Env)

def perform (operation : Operation) : Scanning Nat := fun made =>
  match env made operation with
  | .threw => (none,made ++ [operation])
  | .gave value => (some value,made ++ [operation])

def attempt (operation : Operation) : Scanning (Option Nat) := fun made =>
  match env made operation with
  | .threw => (some none,made ++ [operation])
  | .gave value => (some (some value),made ++ [operation])

def call (operation : Operation) : Scanning Unit := do
  let _ ← perform env operation
  return ()

/-- An `if` without an `else`. -/
def whenever (condition : Bool) (m : Scanning Unit) : Scanning Unit :=
  if condition then m else return ()

/-- Gives whether the stored track found has a game. -/
def checkForExistingTrack : Scanning Bool := do
  let existingTrack ← perform env .getTrackFromPath
  if existingTrack ≠ 0 then do
    let changed ← perform env .updateTrack
    whenever (changed ≠ 0) (call env .title)
    let game ← perform env .game
    return game ≠ 0
  else do
    call env .title
    let movedTrack ← perform env .getTrack
    if movedTrack ≠ 0 then do
      call env .updateTrack
      call env .title
      let game ← perform env .game
      return game ≠ 0
    else return false

/-- `addTrack` runs before anyone subscribes to what it gives. -/
def readSingleTrack (path : String) : Scanning Bool := do
  let track ← perform env (.readTrackFile path)
  if track ≠ 0 then do
    let game ← checkForExistingTrack env
    whenever (!game) (call env .addTrack)
    return true
  else return false

def checkTracks : Nat → Nat → Bool → Scanning (Nat × Bool)
  | 0,newTracks,game => return (newTracks,game)
  | left + 1,newTracks,game => do
    let existingTrackGame ← checkForExistingTrack env
    if existingTrackGame then checkTracks left newTracks true
    else checkTracks left (newTracks + 1) game

def addTracks : Nat → Bool → Scanning Bool
  | 0,game => return game
  | left + 1,game => do
    let added ← attempt env .addMappedTrack
    match added with
    | none => return game
    | some _ => addTracks left true

/-- A file that reads as a list of tracks answers with one more than its length. -/
def readMultipleTracks (path : String) : Scanning Bool := do
  let tracks ← perform env (.readTrackFile path)
  if tracks ≠ 0 then
    let (newTracks,game) ← checkTracks env (tracks - 1) 0 false
    addTracks env newTracks game
  else return false

/-- Gives whether the folder has a game. -/
def scanFile (folderGame : Bool) (path : String) : Scanning Bool :=
  let fileExtension := extension path
  if fileExtension = "" then return folderGame
  else if (extensionsMusic.lookup fileExtension).isSome then
    if fileExtension ∈ extensionsMultiTrack then readMultipleTracks env path
    else readSingleTrack env path
  else if fileExtension ∈ extensionsImages then do
    whenever folderGame (call env .updateGameArt)
    return folderGame
  else return folderGame

mutual
def scanFolder : Entry → Scanning Unit
  | .file path => do
    call env (.listFiles path)
    call env .fileExists
  | .folder path children => do
    call env (.listFiles path)
    scanChildren false children

def scanChildren (folderGame : Bool) : List Entry → Scanning Unit
  | [] => return ()
  | .folder path children::rest =>
    if isHidden path then scanChildren folderGame rest
    else do
      scanFolder (.folder path children)
      scanChildren folderGame rest
  | .file path::rest =>
    if isHidden path then scanChildren folderGame rest
    else do
      let folderGame ← scanFile env folderGame path
      scanChildren folderGame rest
end

def scanFolders : List Entry → Scanning Unit
  | [] => return ()
  | folder::rest => do
    scanFolder env folder
    scanFolders rest

/-- The three listings; a null listing of `/storage` throws. -/
def getFolders : Scanning Unit := do
  call env (.listFiles "/storage")
  call env (.listFiles "/storage/self/primary")
  call env (.listFiles "/storage/emulated/legacy")

def checkTrack : Scanning Unit := do
  let there ← perform env .fileExists
  whenever (there = 0) do
    call env .title
    call env .deleteTrack

/-- The listing of a folder answers with one more than its length. -/
def deleteArt : Scanning Unit := do
  let artLocal ← perform env .artLocal
  whenever (artLocal ≠ 0) do
    let there ← perform env .fileExists
    whenever (there ≠ 0) do
      call env .deleteFile
      let listed ← perform env (.listFiles "")
      whenever (listed = 1) (call env .deleteFile)

def checkGame : Scanning Unit := do
  let tracks ← perform env .tracks
  whenever (tracks = 0) do
    deleteArt env
    call env .deleteGame

def checkArtist : Scanning Unit := do
  let tracks ← perform env .tracks
  whenever (tracks = 0) (call env .deleteArtist)

def repeated (check : Scanning Unit) : Nat → Scanning Unit
  | 0 => return ()
  | left + 1 => do
    check
    repeated check left

def sweep : Scanning Unit := do
  let tracks ← perform env .getTracksManaged
  repeated (checkTrack env) tracks
  let games ← perform env .getGamesManaged
  repeated (checkGame env) games
  let artists ← perform env .getArtistsManaged
  repeated (checkArtist env) artists

def clearOld : Scanning Unit := do
  let found ← perform env .findOldDbPath
  whenever (found ≠ 0) do
    call env .clearOldDb
    call env .clearOldImages

def body (folders : List Entry) : Scanning Unit := do
  getFolders env
  scanFolders env folders
  sweep env

end Scan

def stateNotScanning : Nat := 0
def stateScanning : Nat := 1

/-- The state word and, once there is a repository, its `isClosed`. -/
structure LibraryScanner where
  state : Nat
  isClosed : Option Bool
  deriving DecidableEq, Repr

def LibraryScanner.initial : LibraryScanner := ⟨stateNotScanning,none⟩

def scanLibrary (env : Env) (folders : List Entry) (scanner : LibraryScanner) :
    LibraryScanner × List Operation :=
  match clearOld env [] with
  | (none,made) => (scanner,made)
  | (some _,made) =>
    let scanner := {scanner with state := stateScanning}
    match perform env .getRepository made with
    | (none,made) => (scanner,made)
    | (some _,made) =>
      let scanner := {scanner with isClosed := some (scanner.isClosed.getD false)}
      match perform env .reopen made with
      | (none,made) => (scanner,made)
      | (some _,made) =>
        let scanner := {scanner with isClosed := some false}
        match body env folders made with
        | (none,made) => (scanner,made)
        | (some _,made) =>
          match perform env .close made with
          | (none,made) => (scanner,made)
          | (some _,made) => (⟨stateNotScanning,some true⟩,made)

def LibraryScanner.Clean (scanner : LibraryScanner) : Prop :=
  scanner.state = stateNotScanning ∧ scanner.isClosed ≠ some false

/-- A call before the state is set, or one whose exception is caught. -/
def Harmless (operation : Operation) : Prop :=
  operation ∈ [.findOldDbPath,.clearOldDb,.clearOldImages,.addMappedTrack]

instance (operation : Operation) : Decidable (Harmless operation) :=
  inferInstanceAs (Decidable (operation ∈ _))

/-- One of the calls, made after those before it, throws and is not harmless. -/
def Breaks (env : Env) : List Operation → List Operation → Prop
  | _,[] => False
  | before,operation::rest =>
    (¬ Harmless operation ∧ env before operation = .threw) ∨ Breaks env (before ++ [operation]) rest

section Trace
variable {env : Env} {α β : Type}

theorem breaks_append (before calls more : List Operation) : Breaks env before (calls ++ more) ↔
    Breaks env before calls ∨ Breaks env (before ++ calls) more := by
  induction calls generalizing before with
  | nil => simp [Breaks]
  | cons operation rest ih =>
    rw [List.cons_append,Breaks,ih,Breaks,List.append_assoc,List.singleton_append,or_assoc]

theorem bind_apply (m : Scanning α) (next : α → Scanning β) (made : List Operation) :
    (m >>= next) made = match m made with
      | (none,after) => (none,after)
      | (some value,after) => next value after := by
  change (match m made with
    | (outcome,after) => (match outcome with
      | some value => next value
      | none => (pure none : StateM (List Operation) (Option β))) after) = _
  rcases m made with ⟨_ | _,_⟩ <;> rfl

/-- The part throws exactly when one of its calls does that is not harmless. -/
def Traced (env : Env) (m : Scanning α) : Prop := ∀ made, ∃ calls, (m made).2 = made ++ calls ∧
  ((m made).1 = none ↔ Breaks env made calls)

theorem traced_pure (value : α) : Traced env (pure value : Scanning α) := by
  intro made
  refine ⟨[],(List.append_nil made).symm,?_⟩
  exact iff_of_false (Option.some_ne_none value) id

theorem traced_bind {m : Scanning α} {next : α → Scanning β} (first : Traced env m)
    (second : ∀ value, Traced env (next value)) : Traced env (m >>= next) := by
  intro made
  obtain ⟨calls,after,threw⟩ := first made
  rw [bind_apply]
  generalize m made = outcome at *
  rcases outcome with ⟨_ | value,rest⟩
  · exact ⟨calls,after,iff_of_true rfl (threw.mp rfl)⟩
  · dsimp only at after threw ⊢
    subst after
    obtain ⟨more,last,broke⟩ := second value (made ++ calls)
    refine ⟨calls ++ more,by rw [last,List.append_assoc],?_⟩
    have calm : ¬ Breaks env made calls := fun broke => Option.some_ne_none value (threw.mpr broke)
    rw [broke,breaks_append,or_iff_right calm]

theorem traced_perform {operation : Operation} (matters : ¬ Harmless operation) :
    Traced env (perform env operation) := by
  intro made
  refine ⟨[operation],?_,?_⟩
  · unfold perform
    split <;> rfl
  · unfold perform
    split
    next threw => exact iff_of_true rfl (.inl ⟨matters,threw⟩)
    next gave =>
      apply iff_of_false (Option.some_ne_none _)
      rintro (⟨_,threw⟩ | more)
      · rw [gave] at threw
        cases threw
      · exact more

theorem traced_attempt {operation : Operation} (harmless : Harmless operation) :
    Traced env (attempt env operation) := by
  intro made
  have calm : ¬ Breaks env made [operation] := by
    rintro (⟨matters,_⟩ | more)
    · exact matters harmless
    · exact more
  refine ⟨[operation],?_,?_⟩
  · unfold attempt
    split <;> rfl
  · unfold attempt
    split <;> exact iff_of_false (Option.some_ne_none _) calm

theorem traced_call {operation : Operation} (matters : ¬ Harmless operation) :
    Traced env (call env operation) :=
  traced_bind (traced_perform matters) fun _ => traced_pure ()

theorem traced_whenever (condition : Bool) {m : Scanning Unit} (traced : Traced env m) :
    Traced env (whenever condition m) := by
  unfold whenever
  split
  · exact traced
  · exact traced_pure ()

theorem traced_ite {condition : Prop} [Decidable condition] {m n : Scanning α} (first : Traced env m)
    (second : Traced env n) : Traced env (if condition then m else n) := by
  split
  · exact first
  · exact second

end Trace

section Parts
variable (env : Env)

theorem checkForExistingTrack_traced : Traced env (checkForExistingTrack env) := by
  refine traced_bind (traced_perform (by decide)) fun existingTrack => traced_ite ?_ ?_
  · refine traced_bind (traced_perform (by decide)) fun changed => ?_
    refine traced_bind (traced_whenever _ (traced_call (by decide))) fun _ => ?_
    exact traced_bind (traced_perform (by decide)) fun game => traced_pure _
  · refine traced_bind (traced_call (by decide)) fun _ => ?_
    refine traced_bind (traced_perform (by decide)) fun movedTrack => traced_ite ?_ (traced_pure false)
    refine traced_bind (traced_call (by decide)) fun _ => ?_
    refine traced_bind (traced_call (by decide)) fun _ => ?_
    exact traced_bind (traced_perform (by decide)) fun game => traced_pure _

theorem not_harmless_readTrackFile (path : String) : ¬ Harmless (.readTrackFile path) := by
  simp [Harmless]

theorem not_harmless_listFiles (path : String) : ¬ Harmless (.listFiles path) := by
  simp [Harmless]

theorem readSingleTrack_traced (path : String) : Traced env (readSingleTrack env path) := by
  refine traced_bind (traced_perform (not_harmless_readTrackFile path)) fun track =>
    traced_ite ?_ (traced_pure false)
  refine traced_bind (checkForExistingTrack_traced env) fun game => ?_
  exact traced_bind (traced_whenever _ (traced_call (by decide))) fun _ => traced_pure true

theorem checkTracks_traced (left newTracks : Nat) (game : Bool) :
    Traced env (checkTracks env left newTracks game) := by
  induction left generalizing newTracks game with
  | zero => exact traced_pure _
  | succ left ih =>
    exact traced_bind (checkForExistingTrack_traced env) fun found => traced_ite (ih _ _) (ih _ _)

theorem addTracks_traced (left : Nat) (game : Bool) : Traced env (addTracks env left game) := by
  induction left generalizing game with
  | zero => exact traced_pure _
  | succ left ih =>
    refine traced_bind (traced_attempt (by decide)) fun added => ?_
    cases added with
    | none => exact traced_pure _
    | some _ => exact ih true

theorem readMultipleTracks_traced (path : String) : Traced env (readMultipleTracks env path) := by
  refine traced_bind (traced_perform (not_harmless_readTrackFile path)) fun tracks =>
    traced_ite ?_ (traced_pure false)
  exact traced_bind (checkTracks_traced env _ _ _) fun found => addTracks_traced env _ _

theorem scanFile_traced (folderGame : Bool) (path : String) :
    Traced env (scanFile env folderGame path) := by
  unfold scanFile
  dsimp only
  refine traced_ite (traced_pure _) (traced_ite ?_ (traced_ite ?_ (traced_pure _)))
  · exact traced_ite (readMultipleTracks_traced env path) (readSingleTrack_traced env path)
  · exact traced_bind (traced_whenever _ (traced_call (by decide))) fun _ => traced_pure _

mutual
theorem scanFolder_traced : ∀ folder : Entry, Traced env (scanFolder env folder)
  | .file path => by
    unfold scanFolder
    exact traced_bind (traced_call (not_harmless_listFiles path)) fun _ => traced_call (by decide)
  | .folder path children => by
    unfold scanFolder
    exact traced_bind (traced_call (not_harmless_listFiles path)) fun _ =>
      scanChildren_traced false children

theorem scanChildren_traced (folderGame : Bool) : ∀ children : List Entry,
    Traced env (scanChildren env folderGame children)
  | [] => by
    unfold scanChildren
    exact traced_pure ()
  | .folder path children::rest => by
    unfold scanChildren
    exact traced_ite (scanChildren_traced folderGame rest)
      (traced_bind (scanFolder_traced (.folder path children)) fun _ =>
        scanChildren_traced folderGame rest)
  | .file path::rest => by
    unfold scanChildren
    exact traced_ite (scanChildren_traced folderGame rest)
      (traced_bind (scanFile_traced env folderGame path) fun folderGame =>
        scanChildren_traced folderGame rest)
end

theorem scanFolders_traced (folders : List Entry) : Traced env (scanFolders env folders) := by
  induction folders with
  | nil => exact traced_pure ()
  | cons folder rest ih => exact traced_bind (scanFolder_traced env folder) fun _ => ih

theorem repeated_traced {check : Scanning Unit} (traced : Traced env check) (left : Nat) :
    Traced env (repeated check left) := by
  induction left with
  | zero => exact traced_pure ()
  | succ left ih => exact traced_bind traced fun _ => ih

theorem checkTrack_traced : Traced env (checkTrack env) :=
  traced_bind (traced_perform (by decide)) fun _ => traced_whenever _
    (traced_bind (traced_call (by decide)) fun _ => traced_call (by decide))

theorem deleteArt_traced : Traced env (deleteArt env) := by
  refine traced_bind (traced_perform (by decide)) fun artLocal => traced_whenever _ ?_
  refine traced_bind (traced_perform (by decide)) fun there => traced_whenever _ ?_
  refine traced_bind (traced_call (by decide)) fun _ => ?_
  exact traced_bind (traced_perform (not_harmless_listFiles _)) fun listed =>
    traced_whenever _ (traced_call (by decide))

theorem checkGame_traced : Traced env (checkGame env) :=
  traced_bind (traced_perform (by decide)) fun _ => traced_whenever _
    (traced_bind (deleteArt_traced env) fun _ => traced_call (by decide))

theorem checkArtist_traced : Traced env (checkArtist env) :=
  traced_bind (traced_perform (by decide)) fun _ => traced_whenever _ (traced_call (by decide))

theorem sweep_traced : Traced env (sweep env) := by
  refine traced_bind (traced_perform (by decide)) fun tracks => ?_
  refine traced_bind (repeated_traced env (checkTrack_traced env) tracks) fun _ => ?_
  refine traced_bind (traced_perform (by decide)) fun games => ?_
  refine traced_bind (repeated_traced env (checkGame_traced env) games) fun _ => ?_
  refine traced_bind (traced_perform (by decide)) fun artists => ?_
  exact repeated_traced env (checkArtist_traced env) artists

theorem body_traced (folders : List Entry) : Traced env (body env folders) := by
  refine traced_bind ?_ fun _ => ?_
  · refine traced_bind (traced_call (not_harmless_listFiles _)) fun _ => ?_
    exact traced_bind (traced_call (not_harmless_listFiles _)) fun _ =>
      traced_call (not_harmless_listFiles _)
  · exact traced_bind (scanFolders_traced env folders) fun _ => sweep_traced env

end Parts

section Ends
variable {env : Env} {folders : List Entry} {scanner : LibraryScanner} {α : Type}

theorem Traced.threw {m : Scanning α} (traced : Traced env m) {made after : List Operation}
    (ran : m made = (none,after)) : Breaks env [] after := by
  obtain ⟨calls,rfl,threw⟩ := ran ▸ traced made
  rw [breaks_append]
  exact .inr (threw.mp rfl)

theorem Traced.returned {m : Scanning α} (traced : Traced env m) {made after : List Operation}
    {value : α} (ran : m made = (some value,after)) (calm : ¬ Breaks env [] made) :
    ¬ Breaks env [] after := by
  obtain ⟨calls,rfl,threw⟩ := ran ▸ traced made
  rw [breaks_append,or_iff_right calm]
  exact fun broke => Option.some_ne_none value (threw.mpr broke)

theorem not_breaks {calls : List Operation} (all : ∀ operation ∈ calls, Harmless operation)
    (before : List Operation) : ¬ Breaks env before calls := by
  induction calls generalizing before with
  | nil => exact id
  | cons operation rest ih =>
    rintro (⟨matters,_⟩ | more)
    · exact matters (all operation List.mem_cons_self)
    · exact ih (fun other member => all other (List.mem_cons_of_mem operation member)) _ more

theorem clearOld_calm (env : Env) : ¬ Breaks env [] (clearOld env []).2 := by
  apply not_breaks
  have done (operation : Operation) (made : List Operation) :
      (perform env operation made).2 = made ++ [operation] := by
    unfold perform
    split <;> rfl
  have called (operation : Operation) (made : List Operation) :
      (call env operation made).2 = made ++ [operation] := by
    unfold call
    rw [bind_apply,← done operation made]
    split
    next ran => rw [ran]
    next ran => rw [ran]; rfl
  have old : (perform env .findOldDbPath []).2 = [.findOldDbPath] := done _ _
  unfold clearOld
  rw [bind_apply]
  split
  next ran =>
    rw [ran] at old
    subst old
    decide
  next found _ ran =>
    rw [ran] at old
    subst old
    unfold whenever
    split
    · have database : (call env .clearOldDb [.findOldDbPath]).2 = [.findOldDbPath,.clearOldDb] :=
        called _ _
      rw [bind_apply]
      split
      next ran =>
        rw [ran] at database
        subst database
        decide
      next ran =>
        rw [ran] at database
        subst database
        rw [called]
        decide
    · decide

/-- The calls of a scan do not depend on what the last one has left. -/
theorem scanLibrary_calls (env : Env) (folders : List Entry) (scanner other : LibraryScanner) :
    (scanLibrary env folders scanner).2 = (scanLibrary env folders other).2 := by
  unfold scanLibrary
  dsimp only
  split
  · rfl
  split
  · rfl
  split
  · rfl
  split
  · rfl
  split <;> rfl

theorem scanLibrary_clean_iff (clean : scanner.Clean) :
    (scanLibrary env folders scanner).1.Clean ↔
      ¬ Breaks env [] (scanLibrary env folders scanner).2 := by
  have calm := clearOld_calm env
  have unset {scanner : LibraryScanner} (set : scanner.state = stateScanning) : ¬ scanner.Clean := by
    intro clean
    rw [clean.1] at set
    cases set
  unfold scanLibrary
  dsimp only
  split
  next cleared =>
    rw [cleared] at calm
    exact iff_of_true clean calm
  next cleared =>
  rw [cleared] at calm
  split
  next ran =>
    exact iff_of_false (unset rfl) (not_not_intro ((traced_perform (by decide)).threw ran))
  next ran =>
  have calm := (traced_perform (by decide)).returned ran calm
  split
  next ran =>
    exact iff_of_false (unset rfl) (not_not_intro ((traced_perform (by decide)).threw ran))
  next ran =>
  have calm := (traced_perform (by decide)).returned ran calm
  split
  next ran => exact iff_of_false (unset rfl) (not_not_intro ((body_traced env folders).threw ran))
  next ran =>
  have calm := (body_traced env folders).returned ran calm
  split
  next ran =>
    exact iff_of_false (unset rfl) (not_not_intro ((traced_perform (by decide)).threw ran))
  next ran =>
    have calm := (traced_perform (by decide)).returned ran calm
    exact iff_of_true ⟨rfl,nofun⟩ calm

end Ends

structure Scan where
  env : Env
  folders : List Entry

def scanned (scans : List Scan) : LibraryScanner :=
  scans.foldl (fun scanner scan => (scanLibrary scan.env scan.folders scanner).1) .initial

/-- No call of the scan throws once the state is set, but one that is caught. -/
def Scan.Undisturbed (scan : Scan) : Prop :=
  ¬ Breaks scan.env [] (scanLibrary scan.env scan.folders .initial).2

/-- Every scan of a run ends cleanly exactly when every one is undisturbed. -/
theorem scans_end_clean_iff (scans : List Scan) :
    (∀ before, before <+: scans → (scanned before).Clean) ↔ ∀ scan ∈ scans, scan.Undisturbed := by
  have last (before : List Scan) (scan : Scan) : scanned (before ++ [scan]) =
      (scanLibrary scan.env scan.folders (scanned before)).1 := by
    unfold scanned
    rw [List.foldl_append]
    rfl
  have step (before : List Scan) (scan : Scan) (clean : (scanned before).Clean) :
      (scanned (before ++ [scan])).Clean ↔ scan.Undisturbed := by
    rw [last,scanLibrary_clean_iff clean,scanLibrary_calls _ _ _ .initial]
    rfl
  constructor
  · intro clean scan member
    obtain ⟨earlier,later,rfl⟩ := List.append_of_mem member
    have made : earlier ++ [scan] <+: earlier ++ scan::later := ⟨later,by simp⟩
    exact (step earlier scan (clean earlier (List.prefix_append earlier _))).mp (clean _ made)
  · intro calm before made
    have among : ∀ scan ∈ before, scan.Undisturbed := fun scan member => calm scan (made.subset member)
    clear made
    induction before using List.reverseRecOn with
    | nil => exact ⟨rfl,nofun⟩
    | append_singleton before scan ih =>
      rw [step before scan (ih fun other member => among other (List.mem_append_left _ member))]
      exact among scan (by simp)

/-- A library of one file whose length tag is no number: its reader throws. -/
def malformed : Scan :=
  ⟨fun _ operation => match operation with
    | .readTrackFile _ => .threw
    | _ => .gave 0,[.folder "/storage/music" [.file "/storage/music/a.psf"]]⟩

theorem malformed_not_clean : ¬ ∀ before, before <+: [malformed] → (scanned before).Clean := by
  intro clean
  have set := (clean [malformed] (List.prefix_refl _)).1
  exact absurd set (by decide)

end Chipbox.Library.Failures
