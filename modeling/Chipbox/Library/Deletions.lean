import Chipbox.Library.Artwork

/-! The files that scans delete: those of the old database, and the image recorded for a game
whose tracks are gone. -/
namespace Chipbox.Library
open Table

/-- Kotlin's `substringAfter`, on characters. -/
def afterDelimiter (delimiter : List Char) : List Char → Option (List Char)
  | [] => if delimiter = [] then some [] else none
  | char::rest =>
    if delimiter <+: char::rest then some ((char::rest).drop delimiter.length)
    else afterDelimiter delimiter rest

def substringAfter (text delimiter : String) : String :=
  ((afterDelimiter delimiter.toList text.toList).map String.ofList).getD text

def parentFile (path : String) : String :=
  String.ofList ((path.toList.reverse.dropWhile (· ≠ '/')).drop 1).reverse

def Below (folder path : String) : Prop := (folder ++ "/").toList <+: path.toList

instance (folder path : String) : Decidable (Below folder path) :=
  inferInstanceAs (Decidable (_ <+: _))

structure AppStorage where
  databasePath : String
  imagesFolder : String
  deriving DecidableEq, Repr

def AppStorage.Owns (app : AppStorage) (path : String) : Prop :=
  (path = app.databasePath ∨ Below app.databasePath path) ∨
    path = app.imagesFolder ∨ Below app.imagesFolder path

instance (app : AppStorage) (path : String) : Decidable (app.Owns path) :=
  inferInstanceAs (Decidable (_ ∨ _))

structure Device where
  store : Store
  paths : List String
  deriving DecidableEq, Repr

/-- What `File.delete` removes: a folder only when it is empty. -/
def deleteFile (paths : List String) (path : String) : List String :=
  if path ∈ paths ∧ ∀ other ∈ paths, parentFile other ≠ path then [path] else []

/-- The paths that `checkForDeletion` of a game with this image removes. -/
def deleteArt (paths : List String) (url : String) : List String :=
  let artLocalFile := substringAfter url "file://"
  if artLocalFile ∈ paths then
    let deleted := deleteFile paths artLocalFile
    let left := paths.filter fun path => path ∉ deleted
    if ∀ path ∈ left, parentFile path ≠ parentFile artLocalFile then
      deleted ++ deleteFile left (parentFile artLocalFile)
    else deleted
  else []

/-- What a scan does to the library and the files, and what becomes of the storage between scans. -/
inductive ScanStep
  | clearOld
  | addTrack (track : Track)
  | updateTrack (oldTrack : TrackRow) (newTrack : Track)
  | addImageToGame (game : Nat) (sourcePath : String)
  | deleteTrack (track : Nat)
  | checkGame (game : Nat)
  | checkArtist (artist : Nat)
  | storage (paths : List String)

namespace Device

def deleted (app : AppStorage) (d : Device) : ScanStep → List String
  | .clearOld => if app.databasePath ∈ d.paths then d.paths.filter fun path => app.Owns path else []
  | .checkGame game =>
    match row? d.store.games game with
    | none => []
    | some row => if row.tracks = [] then (row.artLocal.map (deleteArt d.paths)).getD [] else []
  | _ => []

def next (mode : Iteration) (app : AppStorage) (d : Device) (taken : ScanStep) : Option Device :=
  let paths := d.paths.filter fun path => path ∉ d.deleted app taken
  match taken with
  | .clearOld => some ⟨d.store,paths⟩
  | .addTrack track => some ⟨(d.store.addTrack track).2,paths⟩
  | .updateTrack oldTrack newTrack => some ⟨(d.store.updateTrack mode oldTrack newTrack).1,paths⟩
  | .addImageToGame game sourcePath => some ⟨d.store.updateGameArt game (artLocal sourcePath),paths⟩
  | .deleteTrack track => some ⟨d.store.deleteTrack track,paths⟩
  | .checkGame game => some ⟨Chipbox.Library.checkGame d.store game,paths⟩
  | .checkArtist artist => some ⟨Chipbox.Library.checkArtist d.store artist,paths⟩
  | .storage paths => some ⟨d.store,paths⟩

/-- The step deletes nothing of the user's. -/
def SparesUser (app : AppStorage) (d : Device) (taken : ScanStep) : Prop :=
  ∀ path ∈ d.deleted app taken, app.Owns path

/-- A game without tracks has no image recorded that is still there, unless the image and its folder
are the app's own. -/
def ArtGone (app : AppStorage) (d : Device) : ScanStep → Prop
  | .checkGame game => ∀ row, row? d.store.games game = some row → row.tracks = [] →
    ∀ path, row.artLocal = some (artLocal path) →
      path ∉ d.paths ∨ (app.Owns path ∧ app.Owns (parentFile path))
  | _ => True

end Device

section Text

theorem afterDelimiter_append (delimiter rest : List Char) :
    afterDelimiter delimiter (delimiter ++ rest) = some rest := by
  cases whole : delimiter ++ rest with
  | nil =>
    obtain ⟨rfl,rfl⟩ := List.append_eq_nil_iff.mp whole
    rfl
  | cons char others =>
    unfold afterDelimiter
    rw [← whole,if_pos (List.prefix_append delimiter rest),List.drop_left]

theorem substringAfter_artLocal (path : String) : substringAfter (artLocal path) "file://" = path := by
  unfold substringAfter artLocal
  rw [String.toList_append,afterDelimiter_append]
  exact String.ofList_toList

end Text

namespace Store

def Shows (s : Store) (url : String) : Prop := ∃ row ∈ s.games, row.artLocal = some url

def Arts (s t : Store) : Prop := ∀ url, t.Shows url → s.Shows url

section Arts
variable {s t u : Store}

theorem Arts.refl (s : Store) : Arts s s := fun _ shown => shown

theorem Arts.trans (first : Arts s t) (second : Arts t u) : Arts s u :=
  fun url shown => first url (second url shown)

theorem arts_of_games (same : t.games = s.games) : Arts s t := by
  intro url shown
  unfold Shows at shown ⊢
  rw [← same]
  exact shown

theorem arts_modifyGame {change : GameRow → GameRow}
    (keeps : ∀ row, (change row).artLocal = row.artLocal) (s : Store) (game : Nat) :
    Arts s (s.modifyGame game change) := by
  rintro url ⟨row,member,shown⟩
  obtain ⟨old,stored,rfl⟩ := List.mem_map.mp member
  refine ⟨old,stored,?_⟩
  split at shown
  · rw [← keeps]
    exact shown
  · exact shown

theorem arts_getGame (s : Store) (platformName title : Option String) :
    Arts s (s.getGame platformName title).2 := by
  unfold getGame
  split
  · exact .refl s
  · rintro url ⟨row,member,shown⟩
    rcases List.mem_append.mp member with old | fresh
    · exact ⟨row,old,shown⟩
    · cases List.mem_singleton.mp fresh
      cases shown

theorem arts_frame : ArtFrame Arts where
  refl := .refl
  trans := .trans
  of_games := arts_of_games
  modifyGame keeps := arts_modifyGame fun row => (keeps row).2
  getGame := arts_getGame

theorem arts_checkGame (s : Store) (game : Nat) : Arts s (checkGame s game) := by
  unfold checkGame
  split
  · exact .refl s
  · split
    · rintro url ⟨row,member,shown⟩
      exact ⟨row,(mem_delete.mp member).1,shown⟩
    · exact .refl s

theorem arts_checkArtist (s : Store) (artist : Nat) : Arts s (checkArtist s artist) := by
  unfold checkArtist
  split
  · exact .refl s
  · split
    · rintro url ⟨row,member,shown⟩
      obtain ⟨old,stored,rfl⟩ := List.mem_map.mp member
      exact ⟨old,stored,shown⟩
    · exact .refl s

theorem arts_deleteTrack (s : Store) (track : Nat) : Arts s (s.deleteTrack track) := by
  rintro url ⟨row,member,shown⟩
  obtain ⟨old,stored,rfl⟩ := List.mem_map.mp member
  exact ⟨old,stored,shown⟩

end Arts
end Store

namespace Device

section Runs
variable {mode : Iteration} {app : AppStorage} {d e : Device}

theorem next_shows {taken : ScanStep} (step : d.next mode app taken = some e) {url : String}
    (shown : e.store.Shows url) : d.store.Shows url ∨
      ∃ game path, taken = .addImageToGame game path ∧ url = artLocal path := by
  cases taken with
  | clearOld => cases step; exact .inl shown
  | storage paths => cases step; exact .inl shown
  | addTrack track => cases step; exact .inl (Store.addTrack_art Store.arts_frame d.store track url shown)
  | updateTrack oldTrack newTrack =>
    cases step
    exact .inl (Store.updateTrack_art Store.arts_frame mode d.store oldTrack newTrack url shown)
  | deleteTrack track => cases step; exact .inl (Store.arts_deleteTrack d.store track url shown)
  | checkGame game => cases step; exact .inl (Store.arts_checkGame d.store game url shown)
  | checkArtist artist => cases step; exact .inl (Store.arts_checkArtist d.store artist url shown)
  | addImageToGame game path =>
    cases step
    obtain ⟨row,member,here⟩ := shown
    obtain ⟨old,stored,rfl⟩ := List.mem_map.mp member
    split at here
    · exact .inr ⟨game,path,rfl,(Option.some.inj here).symm⟩
    · exact .inl ⟨old,stored,here⟩

/-- Every image of a game was found by the walk of an earlier scan. -/
theorem shows_of_exec {steps : List ScanStep} (run : Run.exec (next mode app) d steps = some e)
    {url : String} (shown : e.store.Shows url) : d.store.Shows url ∨
      ∃ game path, .addImageToGame game path ∈ steps ∧ url = artLocal path := by
  induction steps generalizing d with
  | nil =>
    cases run
    exact .inl shown
  | cons taken rest ih =>
    obtain ⟨middle,step,run⟩ := Run.exec_cons.mp run
    rcases ih run with before | ⟨game,path,member,rfl⟩
    · rcases next_shows step before with old | ⟨game,path,rfl,rfl⟩
      · exact .inl old
      · exact .inr ⟨game,path,List.mem_cons_self,rfl⟩
    · exact .inr ⟨game,path,List.mem_cons_of_mem _ member,rfl⟩

theorem mem_deleteFile {paths : List String} {path gone : String} (member : gone ∈ deleteFile paths path) :
    gone = path := by
  unfold deleteFile at member
  split at member
  · exact List.mem_singleton.mp member
  · cases member

/-- Deleting an image deletes nothing but the image and its folder, and nothing if it is gone. -/
theorem mem_deleteArt {paths : List String} {path gone : String}
    (member : gone ∈ deleteArt paths (artLocal path)) :
    path ∈ paths ∧ (gone = path ∨ gone = parentFile path) := by
  unfold deleteArt at member
  rw [substringAfter_artLocal] at member
  dsimp only at member
  split at member
  next there =>
    refine ⟨there,?_⟩
    split at member
    · rcases List.mem_append.mp member with image | folder
      · exact .inl (mem_deleteFile image)
      · exact .inr (mem_deleteFile folder)
    · exact .inl (mem_deleteFile member)
  · cases member

def Recorded (d : Device) : Prop := ∀ url, d.store.Shows url → ∃ path, url = artLocal path

theorem sparesUser_of_artGone (recorded : d.Recorded)
    {taken : ScanStep} (gone : d.ArtGone app taken) : d.SparesUser app taken := by
  intro deletedPath member
  cases taken with
  | clearOld =>
    unfold deleted at member
    dsimp only at member
    split at member
    · exact of_decide_eq_true (List.mem_filter.mp member).2
    · cases member
  | checkGame game =>
    unfold deleted at member
    dsimp only at member
    split at member
    · cases member
    next row stored =>
      split at member
      next bare =>
        cases art : row.artLocal with
        | none =>
          rw [art] at member
          cases member
        | some url =>
          obtain ⟨path,rfl⟩ := recorded url ⟨row,row?_mem stored,art⟩
          rw [art] at member
          obtain ⟨there,removed⟩ := mem_deleteArt member
          rcases gone row stored bare path art with absent | ⟨own,folder⟩
          · exact absurd there absent
          · rcases removed with rfl | rfl
            · exact own
            · exact folder
      next => cases member
  | addTrack => cases member
  | updateTrack => cases member
  | addImageToGame => cases member
  | deleteTrack => cases member
  | checkArtist => cases member
  | storage => cases member

/-- In every run of scans from an empty library in which no game loses its tracks while its image is
still there, nothing of the user's is deleted. -/
theorem run_spares_user (mode : Iteration) (app : AppStorage) (paths : List String)
    (steps : List ScanStep) (met : Run.Meets (next mode app) (ArtGone app) ⟨.empty,paths⟩ steps) :
    Run.Meets (next mode app) (SparesUser app) ⟨.empty,paths⟩ steps := by
  have kept (d : Device) (taken : ScanStep) (e : Device) (recorded : d.Recorded)
      (_ : d.ArtGone app taken) (step : d.next mode app taken = some e) : e.Recorded := by
    intro url shown
    rcases next_shows step shown with old | ⟨_,path,_,same⟩
    · exact recorded url old
    · exact ⟨path,same⟩
  have nothing : Recorded ⟨.empty,paths⟩ := by
    rintro url ⟨row,member,_⟩
    cases member
  exact Run.meets_of_meets kept (fun d taken recorded gone => sparesUser_of_artGone recorded gone)
    nothing met

def Scans : ScanStep → Prop
  | .storage _ => False
  | _ => True

def Leads (mode : Iteration) (app : AppStorage) (s t : Store) : Prop :=
  ∀ paths, ∃ steps left, Run.exec (next mode app) ⟨s,paths⟩ steps = some ⟨t,left⟩ ∧
    ∀ taken ∈ steps, Scans taken

theorem Leads.refl (mode : Iteration) (app : AppStorage) (s : Store) : Leads mode app s s :=
  fun paths => ⟨[],paths,Run.exec_nil _,fun _ member => absurd member List.not_mem_nil⟩

theorem Leads.trans {s t u : Store} (first : Leads mode app s t) (second : Leads mode app t u) :
    Leads mode app s u := by
  intro paths
  obtain ⟨steps,middle,run,scans⟩ := first paths
  obtain ⟨more,left,rerun,rescans⟩ := second middle
  refine ⟨steps ++ more,left,(Run.exec_append steps more).mpr ⟨_,run,rerun⟩,fun taken member => ?_⟩
  rcases List.mem_append.mp member with before | after
  · exact scans taken before
  · exact rescans taken after

theorem leads_of_next {s t : Store} {taken : ScanStep} (scans : Scans taken)
    (step : ∀ paths, (next mode app ⟨s,paths⟩ taken).map Device.store = some t) :
    Leads mode app s t := by
  intro paths
  obtain ⟨⟨_,left⟩,took,rfl⟩ := Option.map_eq_some_iff.mp (step paths)
  refine ⟨[taken],left,by rw [Run.exec_singleton,took],fun other member => ?_⟩
  rw [List.mem_singleton.mp member]
  exact scans

theorem leads_edited (mode : Iteration) (app : AppStorage) : Edited mode (Leads mode app) where
  refl := .refl mode app
  trans := .trans
  adds s track := @leads_of_next mode app s _ (.addTrack track) trivial fun _ => rfl
  updates {s t row track changed} _ updated := by
    refine @leads_of_next mode app s.store _ (.updateTrack row track) trivial fun paths => ?_
    change some (s.store.updateTrack mode row track).1 = some t.store
    obtain ⟨store,stepped,rfl⟩ := Scan.updateTrack_store updated
    rw [stepped]

theorem leads_passed (mode : Iteration) (app : AppStorage) : Passed (Leads mode app) where
  refl := .refl mode app
  trans := .trans
  track s track := @leads_of_next mode app s _ (.deleteTrack track) trivial fun _ => rfl
  game {s game row} found bare := by
    refine @leads_of_next mode app s _ (.checkGame game) trivial fun paths => ?_
    change some (checkGame s game) = _
    unfold checkGame
    rw [found]
    exact congrArg some (if_pos bare)
  artist {s artist row} found bare := by
    refine @leads_of_next mode app s _ (.checkArtist artist) trivial fun paths => ?_
    change some (checkArtist s artist) = _
    unfold checkArtist
    rw [found]
    exact congrArg some (if_pos bare)

/-- A scan that goes through is a run of these steps. -/
theorem scanLibrary_leads {disk : Storage} {s : Store} {t : Scan}
    (scanned : scanLibrary mode disk s = some t) : Leads mode app s t.store := by
  obtain ⟨folders,_,ran⟩ := Option.bind_eq_some_iff.mp scanned
  obtain ⟨walked,walk,swept⟩ := Option.bind_eq_some_iff.mp ran
  have paints (s : Store) (game : Nat) (path : String) :
      Leads mode app s (s.updateGameArt game (artLocal path)) :=
    @leads_of_next mode app s _ (.addImageToGame game path) trivial fun _ => rfl
  exact ((leads_edited mode app).scanFolders paints walk).trans ((leads_passed mode app).sweep swept)

end Runs
end Device

def phone : AppStorage := ⟨"/data/chipbox.db","/app/images"⟩

def scannedTrack : Track :=
  ⟨some 1,some "/storage/m/a.spc",some "T",some "G",some "A",some "SNES",some 1000,some 0,some 0,some 0⟩

/-- A folder with a track and an image is scanned. Then the track is deleted, by hand, and the folder
scanned again. -/
def twoScans (left : List String) : List ScanStep :=
  [.storage ["/storage/m","/storage/m/a.spc","/storage/m/cover.png"],.addTrack scannedTrack,
    .addImageToGame 1 "/storage/m/cover.png",.storage left,.deleteTrack 0,.checkGame 1,.checkArtist 3]

def musicFolder (files : List String)
    (met : ∀ folder ∈ [Entry.folder "/storage/m" (files.map .file)], ∀ path ∈ folder.met, path ∈ files) :
    Storage :=
  ⟨some [.folder "/storage/m" (files.map .file)],none,none,
    fun _ => some ⟨1,fun _ => ⟨some "SNES",some "A",some "T",some "G",1000,0,0⟩⟩,
    fun path => path ∈ files,fun folder member path among => decide_eq_true (met folder (by
      simpa using member) path among)⟩

/-- The image is deleted along with the track. -/
theorem run_spares_user_gone : Run.Meets (Device.next .failFast phone) (Device.SparesUser phone)
    ⟨.empty,[]⟩ (twoScans ["/storage/m"]) := by
  apply Device.run_spares_user
  refine ⟨trivial,trivial,trivial,trivial,trivial,?_,trivial,trivial⟩
  intro row stored bare path art
  cases stored
  left
  intro there
  have same : path = "/storage/m" := List.mem_singleton.mp (List.mem_filter.mp there).1
  subst same
  exact absurd art (by decide +kernel)

/-- Only the track is deleted, and the second scan deletes the image. -/
theorem image_deleted :
    ((scanLibrary .failFast (musicFolder ["/storage/m/a.spc","/storage/m/cover.png"] (by decide +kernel))
      .empty).bind fun first => scanLibrary .failFast
        (musicFolder ["/storage/m/cover.png"] (by decide +kernel)) first.store).map Scan.store =
      (Run.exec (Device.next .failFast phone) ⟨.empty,[]⟩
        (twoScans ["/storage/m","/storage/m/cover.png"])).map Device.store ∧
    ¬ Run.Meets (Device.next .failFast phone) (Device.SparesUser phone) ⟨.empty,[]⟩
      (twoScans ["/storage/m","/storage/m/cover.png"]) := by
  constructor
  · decide +kernel
  · intro spares
    have last := spares.2.2.2.2.2.1 "/storage/m/cover.png" (by decide +kernel)
    exact absurd last (by decide +kernel)

end Chipbox.Library
