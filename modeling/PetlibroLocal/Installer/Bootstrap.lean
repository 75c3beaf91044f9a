import PetlibroLocal.Lib.FileTree
import PetlibroLocal.Lib.Script

/-!
# The Bootstrap Installer

The script that the feeder runs from the payload slot (`INSTALLER` in `payload.py`). It unpacks its
archive, saves the state of the feeder, makes `app_start.sh` start the firmware of the other slot,
installs the services, copies that firmware over itself, and at last installs the `app_start.sh` of
the archive.

Paths are those below `/user`. A command that fails ends the script, and from the trap on also
starts `fail_safe`, which runs to its end whatever fails in it. What the script asks of anything but
its files (the tools, the line of the archive, the space on the flash) is a test of the host. The
commands `reboot` and `exit` are the end of the script, and the power can be cut at any time.
-/

namespace PetlibroLocal.Installer

open FileTree

/-! ### Places -/

/-- The two places of the firmware. -/
inductive Slot
  | ota1
  | ota2
  deriving DecidableEq, Repr

namespace Slot

/-- The name of a slot. -/
def name : Slot → String
  | ota1 => "ota1"
  | ota2 => "ota2"

/-- The donor of a payload slot. -/
def other : Slot → Slot
  | ota1 => ota2
  | ota2 => ota1

/-- `OTA1` and `OTA2`. -/
def firmware (s : Slot) : Path := [s.name, "AF203_FW"]

/-- `$TARGET.restore`. -/
def restore (s : Slot) : Path := [s.name, "AF203_FW.restore"]

/-- The line that starts the firmware. -/
def line : Slot → Contents
  | ota1 => "/user/ota1/AF203_FW &\n".toList
  | ota2 => "/user/ota2/AF203_FW &\n".toList

/-- What `write_index` writes for the slot. -/
def index : Slot → Contents
  | ota1 => ['\x00', '\x00', '\x00', '\x00']
  | ota2 => ['\x01', '\x00', '\x00', '\x00']

end Slot

/-- `$ROOT/app_start.sh`. -/
def appStart : Path := ["app_start.sh"]

/-- `$ROOT/app_start.sh.new`. -/
def appStartNew : Path := ["app_start.sh.new"]

/-- `STATE_HOME`, with a suffix. -/
def stateHome (suffix : String) : Path := ["data", "local-state-agent" ++ suffix]

/-- `$DATA/dropbear`, with a suffix. -/
def dropbear (suffix : String) : Path := ["data", "dropbear" ++ suffix]

/-- `BOOTSTRAP_HOME`. -/
def bootstrapHome : Path := ["data", "plaf203-bootstrap"]

/-- `STATE_BACKUP`, with a suffix. -/
def stateBackup (suffix : String) : Path :=
  ["data", "plaf203-bootstrap", "preinstall-state" ++ suffix]

/-- `JOURNAL`. -/
def journal : Path := ["data", "plaf203-bootstrap", "status"]

/-- `$BOOTSTRAP_HOME/app_start.oem`. -/
def appStartOem : Path := ["data", "plaf203-bootstrap", "app_start.oem"]

/-- `INDEX`, with a suffix. -/
def index (suffix : String) : Path := ["data", "ota", "index.bin" ++ suffix]

/-- A path below `STAGE`. -/
def stage (path : Path) : Path := "data" :: ".plaf203-bootstrap-stage" :: path

/-! ### The shell -/

/-- A command, and whether it runs under `set -e`. -/
structure Cmd where
  errexit : Bool
  command : Command

/-- A script: each command answers with its exit status. -/
abbrev Prog := Script Cmd (fun _ => ℕ) Unit

/-- Commands under `set +e`. -/
def loose : List Command → Prog
  | [] => .done ()
  | c :: cs => .run ⟨false, c⟩ fun _ => loose cs

/-- Commands under `set -e`; `exit` is what the script does with the status of one that fails. -/
def strict (exit : ℕ → Prog) : List Command → Prog → Prog
  | [], next => next
  | c :: cs, next => .run ⟨true, c⟩ fun status =>
    if status = 0 then strict exit cs next else exit status

/-- A test, and what the script does with its answer. -/
def test (cond : Test) (yes no : Prog) : Prog :=
  .run ⟨true, .test cond⟩ fun status => if status = 0 then yes else no

/-- `printf '%s\n' … > "$JOURNAL"`. -/
def note (text : String) : Command := .write journal (text ++ "\n").toList

/-- The `app_start.sh` of `select_safe_donor`. -/
def safeStart (safe : Slot) : Contents := "#!/bin/sh\n".toList ++ safe.line

/-- The end of `select_safe_donor` and of `select_production_ota1`: `app_start.sh.new` is put in
place, and the index written. -/
def select (slot : Slot) : List Command :=
  [.chmod 0o755 appStartNew, .move appStartNew appStart, .makeDirs ["data", "ota"],
    .write (index ".new") slot.index, .move (index ".new") (index ""), .sync]

/-- `select_safe_donor`. -/
def selectSafeDonor (safe : Slot) : List Command :=
  .write appStartNew (safeStart safe) :: select safe

/-- `select_production_ota1`. -/
def selectProductionOta1 : List Command :=
  .copy (stage ["app_start.sh"]) appStartNew :: select .ota1

/-- `fail_safe`, with `SAFE_FW` and the reason. -/
def failSafe (safe : Slot) (reason : String) : Prog :=
  loose (note reason :: (selectSafeDonor safe ++ [.sync]))

/-- `fail_safe` without a `FAIL_REASON`. -/
def failed (safe : Slot) (phase : String) (status : ℕ) : Prog :=
  failSafe safe ("install_failed_" ++ phase ++ "_" ++ toString status)

/-! ### The script -/

/-- What is installed: the slot that the script runs from, its text, and its archive. -/
structure Payload where
  slot : Slot
  text : Contents
  archive : Tree

namespace Payload

variable (P : Payload)

/-- `DONOR`, and at first `SAFE_FW`. -/
def donor : Slot := P.slot.other

/-- Commands of a phase, before the payload slot is restored. -/
def during (phase : String) : List Command → Prog → Prog := strict (failed P.donor phase)

/-- `app_start.sh` of the archive, and all that goes before it. -/
def production (next : Prog) : Prog :=
  strict (failed .ota1 "selecting_production_ota1")
    (selectProductionOta1 ++ [.removeAll (stateHome ".pre-bootstrap"),
      .removeAll (dropbear ".pre-bootstrap"), .removeAll (stage []),
      note "installed_rebooting_to_ota1", .sync]) next

/-- The firmware of the donor is copied over the payload. -/
def restoreSlot (next : Prog) : Prog :=
  P.during "restoring_payload_slot" [note ("restoring_" ++ P.slot.name)]
    (.run ⟨true, .copy P.donor.firmware P.slot.restore⟩ fun status =>
      if status = 0 then
        test (.same P.donor.firmware P.slot.restore)
          (P.during "restoring_payload_slot" [.chmod 0o755 P.slot.restore,
            .move P.slot.restore P.slot.firmware, .sync] next)
          (failSafe P.donor "payload_slot_restore_verify_failed")
      else failSafe P.donor "payload_slot_restore_copy_failed")

/-- The new home of the agent, as far as it is made before it is put in place. -/
def newHome : List Command :=
  [note "installing_services", .removeAll (stateHome ".new"),
    .move (stage ["local-state-agent"]) (stateHome ".new"),
    .chmod 0o700 (stateHome ".new" ++ ["plaf203-state-agent"]),
    .chmod 0o700 (stateHome ".new" ++ ["plaf203-update-fs"]),
    .chmod 0o700 (stateHome ".new" ++ ["app_start_snippet.sh"]),
    .chmod 0o600 (stateHome ".new" ++ ["token"]), .chmodFiles 0o700 (stateHome ".new" ++ ["runit"])]

/-- The new home of `dropbear`. -/
def newDropbear : List Command :=
  [.removeAll (dropbear ".new"), .move (stage ["dropbear"]) (dropbear ".new"),
    .chmod 0o700 (dropbear ".new" ++ ["dropbearmulti"]),
    .chmod 0o600 (dropbear ".new" ++ ["LICENSE.dropbear"]),
    .chmod 0o600 (dropbear ".new" ++ ["BUILD_INFO.dropbear.json"]),
    .link "dropbearmulti" (dropbear ".new" ++ ["dropbear"]),
    .link "dropbearmulti" (dropbear ".new" ++ ["dropbearkey"]),
    .copy (stage ["authorized_keys"]) (dropbear ".new" ++ ["authorized_keys"]),
    .chmod 0o600 (dropbear ".new" ++ ["authorized_keys"])]

/-- What is there makes room for a new directory. -/
def moveAway (home : String → Path) (next : Prog) : Prog :=
  test (.isDir (home ""))
    (P.during "installing_services"
      [.removeAll (home ".pre-bootstrap"), .move (home "") (home ".pre-bootstrap")] next) next

/-- The services are installed. -/
def installServices (next : Prog) : Prog :=
  P.during "installing_services" newHome <| P.moveAway stateHome <|
    P.during "installing_services"
      (.move (stateHome ".new") (stateHome "") :: .touch ["data", "enable_state_agent"] ::
        newDropbear) <|
    P.moveAway dropbear <|
    P.during "installing_services"
      [.move (dropbear ".new") (dropbear ""), .touch ["data", "enable_ssh"]] next

/-- `app_start.sh` starts the donor. -/
def selectDonor (next : Prog) : Prog :=
  let phase := "selecting_safe_donor"
  let rest := P.during phase (selectSafeDonor P.donor) next
  test (.isFile appStartOem) rest
    (P.during phase [.copy appStart appStartOem, .chmod 0o700 appStartOem] rest)

/-- One part of the state of the feeder is saved, if it is there. -/
def save (name : String) (next : Prog) : Prog :=
  test (.exists ["data", name])
    (P.during "preserving_feeder_state"
      [.copyTree ["data", name] (stateBackup ".new" ++ [name])] next) next

/-- `go-rwx`. -/
def goRwx (mode : ℕ) : ℕ := mode &&& 0o7700

/-- The state of the feeder is saved, once. -/
def preserve (next : Prog) : Prog :=
  let phase := "preserving_feeder_state"
  test (.isFile (stateBackup "" ++ ["complete"])) next <|
    P.during phase [.removeAll (stateBackup ""), .removeAll (stateBackup ".new"),
      .makeDirs (stateBackup ".new")] <|
    P.save "attr" <| P.save "feed_plan" <|
    P.during phase [.touch (stateBackup ".new" ++ ["complete"]),
      .chmodTree goRwx (stateBackup ".new"), .move (stateBackup ".new") (stateBackup ""),
      .sync] next

/-- The space on the flash. The reason leaves out the numbers. -/
def checkSpace (next : Prog) : Prog :=
  test (.host "df") (test (.host "space") next (failSafe P.donor "insufficient_flash"))
    (failSafe P.donor "flash_space_check_failed")

/-- The files that the archive has to hold. -/
def required : List Path :=
  [["local-state-agent", "plaf203-state-agent"], ["local-state-agent", "plaf203-update-fs"],
    ["local-state-agent", "app_start_snippet.sh"], ["local-state-agent", "token"],
    ["dropbear", "dropbearmulti"], ["dropbear", "LICENSE.dropbear"],
    ["dropbear", "BUILD_INFO.dropbear.json"], ["authorized_keys"], ["app_start.sh"]]

/-- An error that is noted before `exit`. -/
def noted (text : String) (status : ℕ) : Prog :=
  P.during "preflight" [note text, .sync] (failed P.donor "preflight" status)

/-- The archive is unpacked, and checked. -/
def unpack (next : Prog) : Prog :=
  P.during "preflight" [.removeAll (stage []), .makeDirs (stage [])] <|
    test (.host "archive_line")
      (P.during "preflight" [.extract P.archive (stage [])] <|
        required.foldr (fun path next => test (.nonEmpty (stage path)) next
          (P.noted ("archive_missing_" ++ "/".intercalate path) 74)) next)
      (P.noted "embedded_archive_missing" 73)

/-- The tools that the services need. -/
def checkTools (next : Prog) : Prog :=
  ["flock", "nc", "sv"].foldr (fun tool next => test (.host tool) next
    (failSafe P.donor ("required_tool_missing_" ++ tool))) next

/-- The script from the trap on. -/
def body : Prog :=
  P.checkTools <| P.unpack <| P.checkSpace <| P.preserve <| P.selectDonor <| P.installServices <|
    P.restoreSlot <| production (.done ())

/-- The script. -/
def installer : Prog :=
  strict (fun _ => .done ()) [.makeDirs bootstrapHome, note "starting", .sync] <|
    test (.executable P.donor.firmware)
      (test (.contains P.donor.firmware ['\x7f', 'E', 'L', 'F'].isPrefixOf) P.body
        (loose [note "donor_not_elf", .sync]))
      (loose [note "donor_missing", .sync])

/-- `app_start.sh` starts the firmware of a slot. -/
def launches (s : Slot) (text : Contents) : Bool := s.line.isSuffixOf text

/-- A reboot: `app_start.sh` runs, and with it the script, as long as it starts the payload. -/
def boot : Prog :=
  test (.contains appStart (launches P.slot))
    (test (.contains P.slot.firmware (· == P.text)) P.installer (.done ())) (.done ())

end Payload

/-! ### The feeder -/

/-- The files of the feeder; whether a rename has replaced `app_start.sh`, the files when the backup
was complete for the first time, and whether such a rename was tried. The script does not have
these three. -/
structure World where
  tree : Tree
  replaced : Bool
  saved : Option Tree
  tried : Bool

/-- The backup is complete. -/
def complete (t : Tree) : Bool := (t.contents (stateBackup "" ++ ["complete"])).isSome

/-- The command replaces `app_start.sh`. -/
def Cmd.replaces (c : Cmd) : Bool :=
  match c.command with
  | .move _ dst => dst = appStart
  | _ => false

/-- A command. -/
def perform (c : Cmd) (o : Exit) (w : World) : ℕ × World :=
  let (status, tree) := c.command.run o w.tree
  (status, {
    tree := tree
    replaced := w.replaced || (c.replaces && status = 0)
    saved := w.saved.or (if complete tree then some tree else none)
    tried := w.tried || c.replaces })

/-- The feeder, with the outcomes that its commands can have. -/
def device (allowed : Cmd → Exit → Prop) : Device Cmd (fun _ => ℕ) Exit World where
  perform := perform
  allowed _ := allowed

end PetlibroLocal.Installer
