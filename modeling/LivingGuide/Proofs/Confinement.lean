import LivingGuide.Command.Run
import LivingGuide.Proofs.FileOrder
import LivingGuide.Proofs.FileSystem.Change

/-!
# What a command touches

A command looks first and changes files last.  Up to its last step it only reads, so a failure before
that step leaves the file system it was given and prints nothing; and the last step writes one file.

* `BuildRequest.run_cases`, `Setup.run_cases`: what a run that may write comes to.
* `FileSystem.writeDocument_writes`: a document that is written is all that changes, apart from the
  directories that are made for it.
* `Command.run_confined`: **every command touches only what it says.**
-/

namespace LivingGuide

/-- The error of a last step: the file could not be written, or a directory for it not be made. -/
def Error.ofWriting : Error → Bool
  | .file _ .makeDirectory _ => true
  | .file _ .writeDocument _ => true
  | .file _ .writeManifest _ => true
  | _ => false

/-- The directory of a path and those above it, which are made where they are missing. -/
def Path.holders (p : Path) : List Path :=
  match p.parent? with
  | none => []
  | some parent => parent :: parent.above

/-- The run stopped before its last step. -/
structure Outcome.StoppedEarly (outcome : Outcome) (fs : FileSystem) : Prop where
  failed : ∃ e, outcome.result = .error e
  files : outcome.files = fs
  output : outcome.output = ""

theorem Outcome.stoppedEarly_failed (fs : FileSystem) (messages : List Message) (e : Error) :
    (Outcome.failed fs messages e).StoppedEarly fs :=
  ⟨⟨e, rfl⟩, rfl, rfl⟩

/-! ### Writing a document -/

namespace FileSystem

variable {fs made files : FileSystem} {path : Path} {text : String} {e : Error}

theorem grows_makeParent (hfs : fs.root.Plain) (path : Path) :
    fs.Grows (fs.makeParent path).1 path.holders := by
  rw [makeParent, Path.holders]
  cases path.parent? with
  | none => exact Grows.refl hfs _
  | some parent =>
    have hchain := grows_makeChain hfs (parent :: parent.above)
    rw [← makeDirectories] at hchain
    simp only
    split
    · exact Grows.refl hfs _
    · split
      · next made hmade =>
        rw [hmade] at hchain
        exact hchain
      · next made fault hmade =>
        rw [hmade] at hchain
        exact hchain

theorem makeParent_error (h : fs.makeParent path = (made, .error e)) : e.ofWriting = true := by
  rw [makeParent] at h
  split at h
  · cases h
  · split at h
    · cases h
    · split at h
      · cases h
      · cases h
        rfl

/-- **A document that is written is all that changes**, apart from the directories made for it. -/
theorem writeDocument_writes (hfs : fs.root.Plain)
    (h : fs.writeDocument path text = (files, .ok ())) :
    fs.Writes files path text path.holders := by
  have hgrows := grows_makeParent hfs path
  rw [writeDocument] at h
  split at h
  · cases h
  · next made hmade =>
    rw [hmade] at hgrows
    split at h
    · next written hwritten =>
      cases h
      exact hgrows.writes (writes_write hgrows.plain hwritten)
    · cases h

theorem writeDocument_error (h : fs.writeDocument path text = (files, .error e)) :
    e.ofWriting = true := by
  rw [writeDocument] at h
  split at h
  · next made error hmade =>
    cases h
    exact makeParent_error hmade
  · split at h
    · cases h
    · cases h
      rfl

end FileSystem

/-! ### The runs that may write -/

/-- **A build stops early or comes to deliver the document of its project.** -/
theorem BuildRequest.run_cases (request : BuildRequest) (fs : FileSystem) :
    (request.run fs).StoppedEarly fs ∨
    ∃ project reading messages text, Project.find fs request.paths = .ok project ∧
      Reading.ofFiles fs project.inventory.files = .ok reading ∧
      request.document project.manifest reading.guide.blocks = .ok text ∧
      request.run fs = deliver fs request project reading messages text := by
  rw [run]
  split
  · exact .inl (Outcome.stoppedEarly_failed _ _ _)
  · next project hproject =>
    simp only
    split
    · exact .inl (Outcome.stoppedEarly_failed _ _ _)
    · next reading hreading =>
      split
      · exact .inl (Outcome.stoppedEarly_failed _ _ _)
      · next text htext =>
        exact .inr ⟨project, reading, _, text, hproject, hreading, htext, rfl⟩

theorem BuildRequest.deliver_cases (fs : FileSystem) (request : BuildRequest) (project : Project)
    (reading : Reading) (messages : List Message) (text : String) :
    let outcome := deliver fs request project reading messages text
    (request.printed = true ∧ outcome.result = .ok () ∧ outcome.files = fs) ∨
    (request.printed = false ∧ outcome.result = .ok () ∧
      fs.writeDocument (request.outputPath project) text = (outcome.files, .ok ())) ∨
    (request.printed = false ∧ ∃ e, outcome.result = .error e ∧ e.ofWriting = true) := by
  simp only [deliver]
  by_cases hprinted : request.printed = true
  · rw [if_pos hprinted]
    exact .inl ⟨hprinted, rfl, rfl⟩
  · have hwritten : request.printed = false := Bool.not_eq_true _ ▸ hprinted
    rw [if_neg hprinted]
    split
    · next files error hfiles =>
      exact .inr (.inr ⟨hwritten, error, rfl, FileSystem.writeDocument_error hfiles⟩)
    · next files hfiles => exact .inr (.inl ⟨hwritten, rfl, hfiles⟩)

theorem Project.root_of_atRoot {fs : FileSystem} {root : Path} {project : Project}
    (h : Project.atRoot fs root = .ok project) : project.root = root := by
  rw [atRoot] at h
  cases hmanifest : manifestAt fs root with
  | error e => rw [hmanifest] at h; cases h
  | ok declared =>
    rw [hmanifest] at h
    cases h
    rfl

/-- **Setting up a project stops early or writes its manifest**; where there is one and it is not to be
replaced, it stops with this error. -/
theorem Setup.run_cases (fs : FileSystem) (path : Path) (force : Bool) :
    (run fs path force).StoppedEarly fs ∧
      (fs.exists? (Project.manifestPath path) = true → force = false →
        (run fs path force).result = .error .manifestExists) ∨
    ¬ (fs.exists? (Project.manifestPath path) = true ∧ force = false) ∧
      (run fs path force).result = .ok () ∧
      ∃ text, fs.write (Project.manifestPath path) text = .ok (run fs path force).files := by
  rw [run]
  split
  · exact .inl ⟨Outcome.stoppedEarly_failed _ _ _, fun _ _ => rfl⟩
  · next hcondition =>
    have hfree : ¬ (fs.exists? (Project.manifestPath path) = true ∧ force = false) := by
      simpa using hcondition
    simp only
    split
    · exact .inl ⟨Outcome.stoppedEarly_failed _ _ _, fun h h' => absurd ⟨h, h'⟩ hfree⟩
    · next project hproject =>
      rw [← Project.root_of_atRoot hproject] at hfree ⊢
      unfold writeDraft
      simp only
      split
      · exact .inl ⟨Outcome.stoppedEarly_failed _ _ _, fun h h' => absurd ⟨h, h'⟩ hfree⟩
      · next written hwritten => exact .inr ⟨hfree, rfl, _, hwritten⟩

/-! ### All commands -/

/-- Whether a command only looks. -/
def Command.looks : Command → Bool
  | .build request => request.printed
  | .list _ => true
  | .validate _ => true
  | .init _ _ => false
  | .completions _ => true

theorem Survey.list_files (fs : FileSystem) (paths : List Path) :
    (list fs paths).files = fs ∧
      ∀ e, (list fs paths).result = .error e → (list fs paths).output = "" := by
  rw [list]
  split
  · exact ⟨rfl, fun _ _ => rfl⟩
  · split
    · exact ⟨rfl, fun _ _ => rfl⟩
    · exact ⟨rfl, nofun⟩

theorem Survey.validate_files (fs : FileSystem) (paths : List Path) :
    (validate fs paths).files = fs ∧ (validate fs paths).output = "" := by
  rw [validate]
  split
  · exact ⟨rfl, rfl⟩
  · simp only
    split
    · exact ⟨rfl, rfl⟩
    · split <;> exact ⟨rfl, rfl⟩

/-- **Commands touch only what they say, and failures leave everything as it was.**  A command that
only looks leaves the file system it was given.  A build that is not printed and succeeds writes the
document of its project to the output path, and a setup writes at most the manifest of its
directory; every other file stays as it is.  A setup stops at a manifest that is there and not to be
replaced.  And a command that fails before its last step has changed nothing and printed nothing. -/
theorem Command.run_confined (fs : FileSystem) (hfs : fs.root.Plain) (command : Command) :
    (command.looks = true → (command.run fs).files = fs) ∧
    (∀ request, command = .build request → request.printed = false →
      (command.run fs).result = .ok () →
      ∃ project reading text, Project.find fs request.paths = .ok project ∧
        Reading.ofFiles fs project.inventory.files = .ok reading ∧
        request.document project.manifest reading.guide.blocks = .ok text ∧
        fs.Writes (command.run fs).files (request.outputPath project) text
          (request.outputPath project).holders) ∧
    (∀ path force, command = .init path force →
      ((command.run fs).files = fs ∨
        ∃ text, fs.Writes (command.run fs).files (Project.manifestPath path) text []) ∧
      (fs.exists? (Project.manifestPath path) = true → force = false →
        (command.run fs).result = .error .manifestExists ∧ (command.run fs).files = fs)) ∧
    ∀ e, (command.run fs).result = .error e → e.ofWriting = false →
      (command.run fs).files = fs ∧ (command.run fs).output = "" := by
  cases command with
  | list paths =>
    obtain ⟨hfiles, houtput⟩ := Survey.list_files fs paths
    exact ⟨fun _ => hfiles, nofun, nofun, fun e he _ => ⟨hfiles, houtput e he⟩⟩
  | validate paths =>
    obtain ⟨hfiles, houtput⟩ := Survey.validate_files fs paths
    exact ⟨fun _ => hfiles, nofun, nofun, fun _ _ _ => ⟨hfiles, houtput⟩⟩
  | completions shell => exact ⟨fun _ => rfl, nofun, nofun, nofun⟩
  | init path force =>
    refine ⟨nofun, nofun, ?_, ?_⟩
    · rintro _ _ ⟨⟩
      rcases Setup.run_cases fs path force with ⟨hstopped, hexists⟩ | ⟨hfree, _, text, hwrite⟩
      · exact ⟨.inl hstopped.files, fun h h' => ⟨hexists h h', hstopped.files⟩⟩
      · exact ⟨.inr ⟨text, FileSystem.writes_write hfs hwrite⟩, fun h h' => absurd ⟨h, h'⟩ hfree⟩
    · intro e he _
      rcases Setup.run_cases fs path force with ⟨hstopped, _⟩ | ⟨_, hok, _⟩
      · exact ⟨hstopped.files, hstopped.output⟩
      · exact absurd (hok.symm.trans he) nofun
  | build request =>
    rcases request.run_cases fs with hstopped |
      ⟨project, reading, messages, text, hproject, hreading, htext, hrun⟩
    · obtain ⟨e, he⟩ := hstopped.failed
      refine ⟨fun _ => hstopped.files, ?_, nofun, fun _ _ _ => ⟨hstopped.files, hstopped.output⟩⟩
      rintro _ ⟨⟩ _ hok
      exact absurd (he.symm.trans hok) nofun
    · show (request.printed = true → (request.run fs).files = fs) ∧ _
      simp only [run, hrun]
      rcases request.deliver_cases fs project reading messages text with
        ⟨hprinted, hok, hfiles⟩ | ⟨hprinted, hok, hwritten⟩ | ⟨hprinted, e, he, hwriting⟩
      · refine ⟨fun _ => hfiles, ?_, nofun, fun e he => absurd (hok.symm.trans he) nofun⟩
        rintro _ ⟨⟩ hwritten
        exact absurd (hprinted.symm.trans hwritten) nofun
      · refine ⟨fun h => absurd (hprinted.symm.trans h) nofun, ?_, nofun,
          fun e he => absurd (hok.symm.trans he) nofun⟩
        rintro _ ⟨⟩ _ _
        exact ⟨project, reading, text, hproject, hreading, htext,
          FileSystem.writeDocument_writes hfs hwritten⟩
      · refine ⟨fun h => absurd (hprinted.symm.trans h) nofun, ?_, nofun, ?_⟩
        · rintro _ ⟨⟩ _ hok
          exact absurd (he.symm.trans hok) nofun
        · intro e' he' hother
          cases he.symm.trans he'
          exact absurd (hwriting.symm.trans hother) nofun

open Reading (shelf plain_shelf locate_shelf fromUTF8?_toUTF8)

theorem makeParent_shelf (tables buttons : String) :
    (shelf tables buttons).makeParent ⟨"out/guide.json"⟩ =
      ((shelf tables buttons).put ["out"] (.directory []), .ok ()) := by
  have hparent : Path.parent? ⟨"out/guide.json"⟩ = some ⟨"out"⟩ := by decide +kernel
  have hnames : withoutTrailingSlashes (Path.mk "out").segments = ["out"] := by decide +kernel
  have haccepted : FileSystem.refused? ⟨"out"⟩ = none := by decide +kernel
  have hfits : ¬ maxNameBytes < "out".utf8ByteSize := by decide +kernel
  have hmade : (shelf tables buttons).makeDirectory ⟨"out"⟩ =
      .ok ((shelf tables buttons).put ["out"] (.directory [])) := by
    simp [FileSystem.makeDirectory, haccepted, hnames, hfits, Node.followToDirectory, Node.follow,
      shelf, FileSystem.origin, Node.at?]
  simp [FileSystem.makeParent, hparent, FileSystem.makeDirectories, FileSystem.makeChain, hmade]

theorem exists_writeDocument_shelf (tables buttons text : String) :
    ∃ files, (shelf tables buttons).writeDocument ⟨"out/guide.json"⟩ text = (files, .ok ()) := by
  let made := (shelf tables buttons).put ["out"] (.directory [])
  have hroot : (shelf tables buttons).root.at? [] = some (shelf tables buttons).root := rfl
  have hplain : made.root.Plain :=
    (plain_shelf tables buttons).put hroot (by decide) Node.plain_empty
  have hlast : ("out", Node.directory []) ∈
      [("a.scss", Node.file tables.toUTF8), ("b.scss", .file buttons.toUTF8), ("out", .directory [])] := by
    simp
  have hfollow : made.root.follow maxLinks [] ["out"] = .ok (["out"], maxLinks) := by
    have hat : made.root.at? [] = some made.root := rfl
    exact hplain.follow_name hat hlast maxLinks
  have hreached : made.root.followToDirectory maxLinks [] ["out"] = .ok ⟨["out"], [], maxLinks⟩ := by
    rw [Node.followToDirectory, hfollow]
    rfl
  have htarget : made.root.writeTarget maxLinks [] ["out", "guide.json"] = .ok ["out", "guide.json"] :=
    Node.writeTarget_of_free (by decide : withoutTrailingSlashes (["out"] ++ ["guide.json"]) = _) hreached
      (by decide) rfl
  have haccepted : FileSystem.refused? ⟨"out/guide.json"⟩ = none := by decide +kernel
  have hsegments : (Path.mk "out/guide.json").segments = ["out", "guide.json"] := by decide +kernel
  have horigin : made.origin ⟨"out/guide.json"⟩ = [] := FileSystem.origin_eq_nil rfl _
  refine ⟨made.put ["out", "guide.json"] (.file text.toUTF8), ?_⟩
  rw [FileSystem.writeDocument, makeParent_shelf]
  simp only [FileSystem.write, haccepted]
  rw [horigin, hsegments, htarget]

/-- An export of the first stylesheet is written into a directory that is made for it. -/
theorem Command.run_confined_shelf :
    let fs := shelf "// Tables\n//\n// Styleguide 1.10\n\n" ""
    let request : BuildRequest :=
      { paths := [⟨"a.scss"⟩], format := .json, output := some ⟨"out/guide.json"⟩ }
    fs.root.Plain ∧ ((Command.build request).run fs).result = .ok () ∧
      ∃ text, fs.Writes ((Command.build request).run fs).files ⟨"out/guide.json"⟩ text
        [⟨"out"⟩, ⟨""⟩] := by
  intro fs request
  have hplain : fs.root.Plain := plain_shelf _ _
  have hlocate : fs.locate ⟨"a.scss"⟩ = .ok ["a.scss"] := locate_shelf _ _ (by simp)
  have hdocuments : fs.Documents ⟨"a.scss"⟩ ⟨[⟨"Tables", "", [], "", "1.10"⟩], none⟩ :=
    ⟨_, ⟨_, _, hlocate, rfl, fromUTF8?_toUTF8 _⟩, by decide +kernel⟩
  obtain ⟨reading, hreading⟩ : ∃ reading, Reading.ofFiles fs [⟨"a.scss"⟩] = .ok reading := by
    refine Reading.exists_ofFiles_iff.mpr (List.forall_mem_singleton.mpr ⟨_, hdocuments, ?_⟩)
    exact List.forall_mem_singleton.mpr ⟨⟨[1, 10]⟩, by decide +kernel⟩
  have hdirectory : fs.isDirectory ⟨"a.scss"⟩ = false := by
    rw [FileSystem.isDirectory, FileSystem.node?, hlocate]
    rfl
  have hfiles : (Project.ofPaths fs request.paths).inventory.files = [⟨"a.scss"⟩] := by
    simp [Project.ofPaths, Project.addPath, request, hdirectory, Inventory.push, Inventory.empty]
  obtain ⟨files, hwritten⟩ := exists_writeDocument_shelf "// Tables\n//\n// Styleguide 1.10\n\n" ""
    (exportBlocks reading.guide.blocks)
  have hok : ((Command.build request).run fs).result = .ok () := by
    have hfind : Project.find fs request.paths = .ok (Project.ofPaths fs request.paths) := rfl
    have hdocument : ∀ manifest, request.document manifest reading.guide.blocks =
        .ok (exportBlocks reading.guide.blocks) := fun _ => rfl
    have hpath : ∀ project, request.outputPath project = ⟨"out/guide.json"⟩ := fun _ => rfl
    have hdelivered : fs.writeDocument ⟨"out/guide.json"⟩ (exportBlocks reading.guide.blocks) =
        (files, .ok ()) := hwritten
    simp only [run, BuildRequest.run, hfind, hfiles, hreading, hdocument, BuildRequest.deliver,
      hpath, hdelivered]
    rfl
  obtain ⟨_, hbuild, _, _⟩ := run_confined fs hplain (.build request)
  obtain ⟨project, _, text, _, _, _, hwrites⟩ := hbuild request rfl rfl hok
  have hholders : Path.holders ⟨"out/guide.json"⟩ = [⟨"out"⟩, ⟨""⟩] := by decide +kernel
  exact ⟨hplain, hok, text, hholders ▸ hwrites⟩

end LivingGuide
