/-
The commands that `deploy.sh` gives to the remote shell.

The paths come from the environment of the caller and go through `shell_quote`.  The remote
shell gets the words that were meant, whatever the paths are, and the commands take the site
through the same steps as the machine.
-/
import GarageDoor.Deploy.Release
import GarageDoor.Library.Shell

namespace GarageDoor
namespace Deploy

open Library Ascii Ota

def shellQuote (s : Text) : Text :=
  let s := s.flatMap fun b => if b = 39 then text "'\\''" else [b]
  39 :: (s ++ [39])

/-- `$(...)`. -/
def substitute (output : Text) : Text := output.rdropWhile (· = 10)

def quoted (s : Text) : Text := substitute (shellQuote s)

/-- A file of the remote directory. -/
def remotePath (dir name : Text) : Text := dir ++ (47 :: name)

def ensureDirectory (dir : Text) : Text :=
  text "mkdir -p -- " ++ quoted dir ++ text " && chmod 755 " ++ quoted dir

def openFiles (dir version : Text) : Text :=
  text "chmod 644 " ++ quoted (remotePath dir (binName version)) ++ text " " ++
    quoted (remotePath dir (shaName version))

def publishVersion (dir version : Text) : Text :=
  text "printf '%s\\n' " ++ quoted version ++ text " > " ++ quoted (remotePath dir versionTmp) ++
    text " && chmod 644 " ++ quoted (remotePath dir versionTmp) ++ text " && mv -f " ++
    quoted (remotePath dir versionTmp) ++ text " " ++ quoted (remotePath dir versionName)

/-- The arguments as ssh joins them. -/
def pruneCommand (dir version : Text) : Text :=
  [32].intercalate [text "bash", text "-s", text "--", version, quoted dir]

/-! ## What the commands do -/

def fileIn (dir path : Text) : Option Text :=
  if dir ++ [47] <+: path then some (path.drop (dir.length + 1)) else none

/-- `chmod` goes on to the next file after one that it cannot change. -/
def chmodAll (dir : Text) : List Text → Directory → Directory × Bool
  | [], files => (files, true)
  | path :: paths, files =>
    match (fileIn dir path).bind (chmod files) with
    | some files => chmodAll dir paths files
    | none => ((chmodAll dir paths files).1, false)

/-- The commands of the script on the files of `dir`; a new file is readable or not. -/
def exec (dir : Text) (readable : Bool) (c : Shell.Command) (files : Directory) :
    Directory × Bool :=
  match c.output, c.words with
  | some path, [name, format, argument] =>
    if name = text "printf" ∧ format = text "%s\\n" then
      match fileIn dir path with
      | some file => (write files file (argument ++ [10]) readable, true)
      | none => (files, false)
    else
      (files, false)
  | none, name :: option :: operands =>
    if name = text "chmod" ∧ option = text "644" then
      chmodAll dir operands files
    else if name = text "mv" ∧ option = text "-f" then
      match operands with
      | [source, target] =>
        match (fileIn dir source).bind fun source =>
          (fileIn dir target).bind fun target => rename files source target with
        | some files => (files, true)
        | none => (files, false)
      | _ => (files, false)
    else
      (files, false)
  | _, _ => (files, false)

section

variable {dir version name : Text} {files files' : Directory} {hash : List UInt8 → Digest}
  {s : Site} {b : Build} {readable : Bool}

theorem quoted_eq (s : Text) : quoted s = Shell.quote s := by
  rw [quoted, substitute, shellQuote, ← List.cons_append,
    List.rdropWhile_concat_neg _ _ _ (by simp)]
  rfl

theorem fileIn_remotePath (dir name : Text) : fileIn dir (remotePath dir name) = some name := by
  have hpath : remotePath dir name = (dir ++ [47]) ++ name := by simp [remotePath]
  have hlength : dir.length + 1 = (dir ++ [47]).length := by simp
  rw [fileIn, hpath, if_pos (List.prefix_append _ _), hlength, List.drop_left]

/-! ## What the shell reads -/

theorem isPlain_of_isDigit {b : UInt8} (h : isDigit b = true) : Shell.isPlain b = true := by
  simp [Shell.isPlain, h]

def ensureCommands (dir : Text) : List Shell.Command :=
  [{ words := [text "mkdir", text "-p", text "--", dir], output := none },
    { words := [text "chmod", text "755", dir], output := none }]

def openCommands (dir version : Text) : List Shell.Command :=
  [{ words := [text "chmod", text "644", remotePath dir (binName version),
      remotePath dir (shaName version)]
     output := none }]

def publishCommands (dir version : Text) : List Shell.Command :=
  [{ words := [text "printf", text "%s\\n", version]
     output := some (remotePath dir versionTmp) },
    { words := [text "chmod", text "644", remotePath dir versionTmp], output := none },
    { words := [text "mv", text "-f", remotePath dir versionTmp, remotePath dir versionName]
      output := none }]

def pruneCommands (dir version : Text) : List Shell.Command :=
  [{ words := [text "bash", text "-s", text "--", version, dir], output := none }]

theorem read_ensureDirectory (dir : Text) :
    Shell.read (ensureDirectory dir) = some (ensureCommands dir) := by
  have hline : ensureDirectory dir = Shell.line
      [.plain (text "mkdir") (by decide), .plain (text "-p") (by decide),
        .plain (text "--") (by decide), .quoted dir, .andIf,
        .plain (text "chmod") (by decide), .plain (text "755") (by decide),
        .quoted dir] := by
    rw [ensureDirectory, quoted_eq]
    simp only [List.append_assoc]
    rfl
  rw [hline, Shell.read_line]
  rfl

theorem read_openFiles (dir version : Text) :
    Shell.read (openFiles dir version) = some (openCommands dir version) := by
  have hline : openFiles dir version = Shell.line
      [.plain (text "chmod") (by decide), .plain (text "644") (by decide),
        .quoted (remotePath dir (binName version)),
        .quoted (remotePath dir (shaName version))] := by
    rw [openFiles, quoted_eq, quoted_eq]
    simp only [List.append_assoc]
    rfl
  rw [hline, Shell.read_line]
  rfl

theorem read_publishVersion (dir version : Text) :
    Shell.read (publishVersion dir version) = some (publishCommands dir version) := by
  have hline : publishVersion dir version = Shell.line
      [.plain (text "printf") (by decide), .quoted (text "%s\\n"), .quoted version, .great,
        .quoted (remotePath dir versionTmp), .andIf, .plain (text "chmod") (by decide),
        .plain (text "644") (by decide), .quoted (remotePath dir versionTmp), .andIf,
        .plain (text "mv") (by decide), .plain (text "-f") (by decide),
        .quoted (remotePath dir versionTmp), .quoted (remotePath dir versionName)] := by
    rw [publishVersion, quoted_eq, quoted_eq, quoted_eq]
    simp only [List.append_assoc]
    rfl
  rw [hline, Shell.read_line]
  rfl

theorem read_pruneCommand (dir : Text) (hdigits : Digits version) :
    Shell.read (pruneCommand dir version) = some (pruneCommands dir version) := by
  have hline : pruneCommand dir version = Shell.line
      [.plain (text "bash") (by decide), .plain (text "-s") (by decide),
        .plain (text "--") (by decide),
        .plain version ⟨hdigits.1, fun b hb => isPlain_of_isDigit (hdigits.2 b hb)⟩,
        .quoted dir] := by
    rw [pruneCommand, quoted_eq]
    simp only [List.intercalate_cons_cons, List.intercalate_singleton, List.append_assoc]
    rfl
  rw [hline, Shell.read_line]
  rfl

/-- The remote shell runs the commands that were meant on the paths that were meant. -/
theorem remote_commands_read (dir : Text) (hdigits : Digits version) :
    Shell.read (ensureDirectory dir) = some (ensureCommands dir) ∧
    Shell.read (openFiles dir version) = some (openCommands dir version) ∧
    Shell.read (publishVersion dir version) = some (publishCommands dir version) ∧
    Shell.read (pruneCommand dir version) = some (pruneCommands dir version) :=
  ⟨read_ensureDirectory dir, read_openFiles dir version, read_publishVersion dir version,
    read_pruneCommand dir hdigits⟩

def fiveInQuotes : Text := text "/srv/it's here/garage door"

theorem remote_commands_read_quotes :
    Shell.read (pruneCommand fiveInQuotes (text "5")) =
      some (pruneCommands fiveInQuotes (text "5")) :=
  (remote_commands_read fiveInQuotes (by decide)).2.2.2

/-! ## What the commands do to the site -/

/-- The effect of a command line. -/
def remote (dir : Text) (readable : Bool) (line : Text) (files : Directory) :
    Option (Directory × Bool) :=
  (Shell.read line).map fun commands => Shell.runAll (exec dir readable) commands files

theorem exec_printf (name argument : Text) : exec dir readable
    { words := [text "printf", text "%s\\n", argument]
      output := some (remotePath dir name) } files =
      (write files name (argument ++ [10]) readable, true) := by
  unfold exec
  dsimp only
  rw [if_pos ⟨rfl, rfl⟩, fileIn_remotePath]

theorem exec_chmod (operands : List Text) : exec dir readable
    { words := text "chmod" :: text "644" :: operands, output := none } files =
      chmodAll dir operands files := by
  unfold exec
  dsimp only
  rw [if_pos ⟨rfl, rfl⟩]

theorem exec_mv (source target : Text) : exec dir readable
    { words := [text "mv", text "-f", remotePath dir source, remotePath dir target]
      output := none } files =
      match rename files source target with
      | some files => (files, true)
      | none => (files, false) := by
  unfold exec
  dsimp only
  rw [if_neg (by decide), if_pos ⟨rfl, rfl⟩, fileIn_remotePath, fileIn_remotePath]
  rfl

theorem runAll_singleton (c : Shell.Command) :
    Shell.runAll (exec dir readable) [c] files = exec dir readable c files := by
  rw [Shell.runAll]
  generalize exec dir readable c files = result
  obtain ⟨files', _ | _⟩ := result <;> rfl

theorem chmodAll_cons (name : Text) (paths : List Text) :
    chmodAll dir (remotePath dir name :: paths) files = (files', true) ↔
      ∃ next, chmod files name = some next ∧ chmodAll dir paths next = (files', true) := by
  rw [chmodAll, fileIn_remotePath, Option.bind_some]
  cases chmod files name <;> simp

theorem remote_openFiles : remote dir readable (openFiles dir version) files = some (files', true) ↔
    ∃ next, chmod files (binName version) = some next ∧
      chmod next (shaName version) = some files' := by
  rw [remote, read_openFiles, Option.map_some, openCommands, runAll_singleton, exec_chmod,
    Option.some.injEq, chmodAll_cons]
  refine exists_congr fun next => and_congr_right fun _ => ?_
  rw [chmodAll_cons]
  simp [chmodAll]

theorem remote_publishVersion {next : Directory}
    (hopen : chmod (write files versionTmp (version ++ [10]) readable) versionTmp = some next)
    (hrename : rename next versionTmp versionName = some files') :
    remote dir readable (publishVersion dir version) files = some (files', true) := by
  have hchmod : chmodAll dir [remotePath dir versionTmp]
      (write files versionTmp (version ++ [10]) readable) = (next, true) :=
    (chmodAll_cons _ _).mpr ⟨next, hopen, rfl⟩
  rw [remote, read_publishVersion, Option.map_some, publishCommands, Shell.runAll, exec_printf]
  dsimp only
  rw [Shell.runAll, exec_chmod, hchmod]
  dsimp only
  rw [runAll_singleton, exec_mv, hrename]

theorem step_opened {target : Target} (h : s.phase = .opening b target) :
    (site hash).step s .opened = (chmod s.dir (target.name b)).map fun dir =>
      ({ s with phase := afterOpen b target, dir }, []) := by
  show react hash s .opened = _
  have hcheck : check s s.reader .opened = none := by cases s.reader <;> rfl
  simp only [react, h, publish]
  cases chmod s.dir (target.name b) with
  | some dir => rfl
  | none => exact hcheck

theorem step_copied {target : Target} (h : s.phase = .copying b target) :
    (site hash).step s (.copied readable) = some
      ({ s with phase := afterCopy b target
                dir := write s.dir (target.name b) (target.content hash b) readable }, []) := by
  show react hash s (.copied readable) = _
  simp only [react, h, publish]

theorem step_renamed (h : s.phase = .renaming b) (hrename : rename s.dir versionTmp versionName =
    some files) : (site hash).step s .renamed = some
      ({ s with phase := .pruning (prune b.version files), history := s.history ++ [b]
                dir := files }, []) := by
  show react hash s .renamed = _
  simp only [react, h, publish, hrename, Option.map_some]

theorem chmod_write (name content : Text) : chmod (write files name content readable) name =
    some ((write files name content readable).insert name { content, readable := true }) := by
  rw [chmod, write, AList.lookup_insert]
  rfl

/-- The commands for a release do to the files what the steps of the machine do. -/
theorem remote_commands_simulate (hash : List UInt8 → Digest) (dir : Text) (readable : Bool)
    (b : Build) (s : Site) :
    (s.phase = .opening b .image → ∀ files,
      (remote dir readable (openFiles dir b.version) s.dir = some (files, true) ↔
        (site hash).runFrom s [.opened, .opened] =
          some ({ s with phase := .copying b .version, dir := files }, []))) ∧
    (s.phase = .copying b .version → ∃ s',
      (site hash).runFrom s [.copied readable, .opened, .renamed] = some (s', []) ∧
        remote dir readable (publishVersion dir b.version) s.dir = some (s'.dir, true)) := by
  constructor
  · intro hphase files
    rw [remote_openFiles, Machine.runFrom, step_opened hphase]
    cases himage : chmod s.dir (binName b.version) with
    | none => simp [Target.name, himage]
    | some next =>
      have hnext : ({ s with phase := afterOpen b .image, dir := next } : Site).phase =
        .opening b .checksum := rfl
      simp only [Target.name, himage, Option.map_some, Machine.runFrom, step_opened hnext]
      cases hchecksum : chmod next (shaName b.version) with
      | none => simp [hchecksum]
      | some last => simp [hchecksum, afterOpen, eq_comm]
  · intro hphase
    let written := write s.dir versionTmp b.versionFile readable
    let opened := written.insert versionTmp { content := b.versionFile, readable := true }
    have hopen : chmod written versionTmp = some opened := chmod_write versionTmp b.versionFile
    obtain ⟨files, hrename⟩ : ∃ files, rename opened versionTmp versionName = some files := by
      rw [rename, AList.lookup_insert]
      exact ⟨_, rfl⟩
    let copied : Site := { s with phase := .opening b .version, dir := written }
    let readied : Site := { s with phase := .renaming b, dir := opened }
    have hsecond : (site hash).step copied .opened = some (readied, []) := by
      rw [step_opened (s := copied) rfl]
      show (chmod written versionTmp).map _ = _
      rw [hopen]
      rfl
    refine ⟨_, Machine.runFrom_cons.mpr ⟨copied, [], [], step_copied hphase,
      Machine.runFrom_cons.mpr ⟨readied, [], [], hsecond, Machine.runFrom_cons.mpr
        ⟨_, [], [], step_renamed (s := readied) rfl hrename, rfl, rfl⟩, rfl⟩, rfl⟩, ?_⟩
    exact remote_publishVersion hopen hrename

def copyingFive : Site :=
  { dir := ∅, phase := .copying five .version, reader := .idle, history := [] }

theorem remote_commands_simulate_five : ∃ s',
    (site fun _ => Vector.replicate 32 7).runFrom copyingFive [.copied false, .opened, .renamed] =
      some (s', []) ∧
    remote fiveInQuotes false (publishVersion fiveInQuotes five.version) copyingFive.dir =
      some (s'.dir, true) :=
  (remote_commands_simulate _ fiveInQuotes false five copyingFive).2 rfl

end

end Deploy
end GarageDoor
