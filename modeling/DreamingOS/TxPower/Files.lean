import DreamingOS.Lib.Text
import DreamingOS.Lib.Scan

namespace DreamingOS.TxPower

/-!
# Transmit power — the boot option and the persisted selection

The two files that `apd_txpower_mode.c` writes for the next boot.

* `atomicText` — a file is replaced, call by call;
* `bootConfig` — the option line of the driver in `modules.conf`;
* `persistSelection` — both, with what it takes back on a failure.

What each call returns is given with the operation.  A file that does not exist is `none`.
-/

def MODE_MAX : ℕ := 31

def CALIBRATED : List Char := ['c', 'a', 'l', 'i', 'b', 'r', 'a', 't', 'e', 'd']
def REGULATORY : List Char := ['r', 'e', 'g', 'u', 'l', 'a', 't', 'o', 'r', 'y']

/-- The name of a mode. -/
def modeText (regulatory : Bool) : List Char := if regulatory then REGULATORY else CALIBRATED

/-- The text of a file. -/
abbrev File := Option (List Char)

/-! ### Replacing a file -/

/-- What the calls of `apd_txpower_atomic_text` return. -/
structure Replace where
  (create write sync close rename openDir syncDir : Bool)

/-- Everything up to the renaming succeeds. -/
def Replace.takes (r : Replace) : Bool := r.create && r.write && r.sync && r.close && r.rename

/-- The directory is opened and synchronised. -/
def Replace.synced (r : Replace) : Bool := r.openDir && r.syncDir

/-- `apd_txpower_atomic_text`: the file afterwards, and whether 0 is returned. -/
def atomicText (r : Replace) (file : File) (text : List Char) : File × Bool :=
  if !r.create then (file, false)
  else if !r.write || !r.sync then (file, false)
  else if !r.close || !r.rename then (file, false)
  else if !r.openDir then (some text, false)
  else (some text, r.syncDir)

theorem atomicText_eq (r : Replace) (file : File) (text : List Char) : atomicText r file text =
      (if r.takes then some text else file, r.takes && r.synced) := by
  obtain ⟨create, write, sync, close, rename, openDir, syncDir⟩ := r
  unfold atomicText Replace.takes Replace.synced
  cases create <;> cases write <;> cases sync <;> cases close <;> cases rename <;> cases openDir <;> rfl

/-! ### The persisted selection -/

/-- What `open` and `read` return, for a file that exists. -/
inductive ReadRun where
  | done
  | openFails
  | readFails

def isBlank (c : Char) : Bool := c = ' ' || c = '\t' || c = '\r' || c = '\n'

/-- The mode that the text of the file names. -/
def parseMode (text : List Char) : Option (List Char) :=
  let buf := (text.take (MODE_MAX + 3)).takeWhile fun c => c ≠ '\x00'
  let mode := (buf.dropWhile isBlank).takeWhile fun c => !isBlank c
  if mode.length = 0 ∨ MODE_MAX < mode.length then none
  else if mode ≠ CALIBRATED ∧ mode ≠ REGULATORY then none
  else some mode

/-- `apd_txpower_persist_read`: the mode, where it returns 0. -/
def persistRead (run : ReadRun) (file : File) : Option (List Char) :=
  match run, file with
  | .done, some text => parseMode text
  | _, _ => none

/-- The mode that is persisted. -/
def selected (file : File) : Option (List Char) := persistRead .done file

/-- `apd_txpower_persist_write`. -/
def persistWrite (r : Replace) (file : File) (mode : List Char) : File × Bool :=
  if mode ≠ CALIBRATED ∧ mode ≠ REGULATORY then (file, false)
  else atomicText r file (mode ++ ['\n'])

/-! ### The boot option -/

def OPTION : List Char := "txpower_from_regdb=".toList

/-- The two lines that apd owns. -/
def ownLine (regulatory : Bool) : List Char :=
  if regulatory then "options mt7996e txpower_from_regdb=1 # dreamingwrt-apd\n".toList
  else "options mt7996e txpower_from_regdb=0 # dreamingwrt-apd\n".toList

def isOwn (line : List Char) : Bool := line = ownLine false || line = ownLine true

/-- A line of another owner that sets the option. -/
def conflicts (line : List Char) : Bool :=
  match Scan.word 31 line with
  | none => false
  | some (command, rest) =>
    match Scan.word 63 rest with
    | none => false
    | some (driver, _) =>
      command = "options".toList && driver = "mt7996e".toList &&
        match Text.search OPTION line with
        | none => false
        | some (front, _) =>
          match Text.search ['#'] line with
          | none => true
          | some (code, _) => front.length < code.length

/-- The lines of a file, as `getline` returns them. -/
def getlines (text : List Char) : List (List Char) := (Text.lines '\n' text).map (Text.ended '\n')

/-- What the loop over the lines has found, and what it has copied. -/
structure BootScan where
  found : ℕ := 0
  matching : ℕ := 0
  last : Char := '\n'
  output : List Char := []

/-- The loop of `apd_txpower_boot_config`; `none` where it meets a conflict. -/
def bootScan (wanted : List Char) (b : BootScan) : List (List Char) → Option BootScan
  | [] => some b
  | line :: rest =>
    if isOwn line then
      bootScan wanted { b with
        found := b.found + 1
        matching := b.matching + if line = wanted then 1 else 0 } rest
    else if conflicts line then none
    else
      bootScan wanted { b with
        output := b.output ++ line
        last := line.getLast?.getD b.last } rest

/-- What the calls of `apd_txpower_boot_config` return: `fopen`, unless it only finds no file, the
    memory stream, `getline`, and the writes into memory. -/
structure BootRun where
  (fopen memstream getline fputs : Bool)
  replace : Replace

/-- The text with the wanted line at its end. -/
def BootScan.text (b : BootScan) (wanted : List Char) : List Char :=
  b.output ++ (if b.last = '\n' then [] else ['\n']) ++ wanted

/-- `apd_txpower_boot_config`: the file afterwards, and whether 0 is returned. -/
def bootConfig (run : BootRun) (file : File) (regulatory apply : Bool) : File × Bool :=
  let wanted := ownLine regulatory
  if !run.fopen then (file, false)
  else if !run.memstream then (file, false)
  else
    match bootScan wanted {} (getlines (file.getD [])) with
    | none => (file, false)
    | some b =>
      if file.isSome && !run.getline then (file, false)
      else if !run.fputs then (file, false)
      else if !apply || (b.found = 1 && b.matching = 1) then (file, true)
      else atomicText run.replace file (b.text wanted)

/-! ### Both -/

/-- The files. -/
structure Files where
  (boot selection : File)

/-- What the parts of `apd_txpower_persist_selection` return. -/
structure PersistRun where
  boot : BootRun
  (write rewrite : Replace)
  unlink : Bool
  revert : BootRun

/-- `apd_txpower_persist_selection`; the mode that was persisted before is empty where it is not
    known. -/
def persistSelection (run : PersistRun) (files : Files) (regulatory : Bool)
    (previous : List Char) : Files × Bool :=
  let (boot, ok) := bootConfig run.boot files.boot regulatory true
  if !ok then ({ files with boot := boot }, false)
  else if previous = modeText regulatory then ({ files with boot := boot }, true)
  else
    let (selection, ok) := persistWrite run.write files.selection (modeText regulatory)
    if ok then (⟨boot, selection⟩, true)
    else
      let selection :=
        if previous ≠ [] then (persistWrite run.rewrite selection previous).1
        else if run.unlink then none else selection
      let (boot, _) := bootConfig run.revert boot (previous = REGULATORY) true
      (⟨boot, selection⟩, false)

end DreamingOS.TxPower
