import Litestream.Lib.Json
import Litestream.Follow.Sidecar

/-!
# The record of a follower commit

Before a staged database replaces the one of a follower, a record of both is written beside
it.  The record is one JSON object on a line (`encodeRecord`).  `readFollowCommitRecord`
decodes it into the fields of the record with the rules of `encoding/json`: a member that is
`null` leaves its field as it is, and of members with one name the last one counts.

What was written is read back, except that a stage name that is not UTF-8 is coerced
(`readFollowCommitRecord_encode`).
-/

namespace Litestream

open Bytes

/-- The intent to replace one generation of a follower by another. -/
structure FollowCommitRecord where
  version : Int
  fromTXID : Bytes
  toTXID : Bytes
  stage : Bytes
  oldSize : Int
  oldSHA256 : Bytes
  newSize : Int
  newSHA256 : Bytes
deriving DecidableEq, Repr

namespace FollowCommitRecord

def currentVersion : Int := 1

/-- What decoding begins with. -/
def zero : FollowCommitRecord := ⟨0, [], [], [], 0, [], 0, []⟩

/-! ## The fields -/

def versionName : Bytes := ascii "version"
def fromTXIDName : Bytes := ascii "from_txid"
def toTXIDName : Bytes := ascii "to_txid"
def stageName : Bytes := ascii "stage"
def oldSizeName : Bytes := ascii "old_size"
def oldSHA256Name : Bytes := ascii "old_sha256"
def newSizeName : Bytes := ascii "new_size"
def newSHA256Name : Bytes := ascii "new_sha256"

def wantFields : List Bytes :=
  [versionName, fromTXIDName, toTXIDName, stageName, oldSizeName, oldSHA256Name, newSizeName,
    newSHA256Name]

/-- Decodes a member into an integer field. -/
def decodeInt (field : Int) : Json → Option Int
  | .null => some field
  | .number lexeme => Json.parseInt lexeme
  | _ => none

/-- Decodes a member into a string field. -/
def decodeString (field : Bytes) : Json → Option Bytes
  | .null => some field
  | .string text => some text
  | _ => none

/-- Decodes one member.  There are no other names by then. -/
def decodeMember (r : FollowCommitRecord) (m : Bytes × Json) : Option FollowCommitRecord :=
  if m.1 = versionName then (decodeInt r.version m.2).map fun x => { r with version := x }
  else if m.1 = fromTXIDName then
    (decodeString r.fromTXID m.2).map fun x => { r with fromTXID := x }
  else if m.1 = toTXIDName then (decodeString r.toTXID m.2).map fun x => { r with toTXID := x }
  else if m.1 = stageName then (decodeString r.stage m.2).map fun x => { r with stage := x }
  else if m.1 = oldSizeName then (decodeInt r.oldSize m.2).map fun x => { r with oldSize := x }
  else if m.1 = oldSHA256Name then
    (decodeString r.oldSHA256 m.2).map fun x => { r with oldSHA256 := x }
  else if m.1 = newSizeName then (decodeInt r.newSize m.2).map fun x => { r with newSize := x }
  else if m.1 = newSHA256Name then
    (decodeString r.newSHA256 m.2).map fun x => { r with newSHA256 := x }
  else none

/-- Decodes the members in order. -/
def decodeMembers (members : List (Bytes × Json)) : Option FollowCommitRecord :=
  members.foldlM decodeMember zero

/-! ## Writing -/

/-- How the record is written. -/
def encodeRecord (r : FollowCommitRecord) : Bytes :=
  Json.formatObject [(versionName, Json.formatInt r.version),
    (fromTXIDName, Json.formatString r.fromTXID), (toTXIDName, Json.formatString r.toTXID),
    (stageName, Json.formatString r.stage), (oldSizeName, Json.formatInt r.oldSize),
    (oldSHA256Name, Json.formatString r.oldSHA256), (newSizeName, Json.formatInt r.newSize),
    (newSHA256Name, Json.formatString r.newSHA256)] ++ [0x0A]

end FollowCommitRecord

/-! ## Reading -/

inductive RecordError where
  | notTerminated
  | decode
  | fieldCount (n : Nat)
  | missingField (name : Bytes)
  | decodeTyped
  | unsupportedVersion (version : Int)
  | newIdentity
deriving DecidableEq, Repr

/-- `strings.ToLower` of a byte of ASCII. -/
def toLower (c : UInt8) : UInt8 := if 0x41 ≤ c ∧ c ≤ 0x5A then c + 0x20 else c

/-- Other bytes than ASCII are no hexadecimal digits. -/
def validFollowSHA256 (s : Bytes) : Bool :=
  s.length == 64 && s == s.map toLower && s.all fun c => (Json.hexValue c).isSome

open FollowCommitRecord

/-- `readFollowCommitRecord`, given the bytes of the file.  That nothing follows the value is
part of `Json.parse`. -/
def readFollowCommitRecord (data : Bytes) : Except RecordError FollowCommitRecord :=
  if data.getLast? ≠ some 0x0A then .error .notTerminated
  else
    match Json.parse data with
    | some (.object members) =>
        let names := (members.map Prod.fst).dedup
        if names.length ≠ wantFields.length then .error (.fieldCount names.length)
        else
          match wantFields.find? fun name => name ∉ names with
          | some name => .error (.missingField name)
          | none =>
              match decodeMembers members with
              | none => .error .decodeTyped
              | some record =>
                  if record.version ≠ currentVersion then
                    .error (.unsupportedVersion record.version)
                  else if record.newSize < 0 ∨ validFollowSHA256 record.newSHA256 = false then
                    .error .newIdentity
                  else .ok record
    -- `null` is a map without entries
    | some .null => .error (.fieldCount 0)
    | _ => .error .decode

/-! ## What was written is read back -/

theorem parseInt_formatInt_eq {n m : Int} (h : Json.parseInt (Json.formatInt n) = some m) :
    m = n := by
  rw [Json.parseInt_formatInt] at h
  split at h
  · exact (Option.some.inj h).symm
  · cases h

/-- The record with its texts coerced. -/
def FollowCommitRecord.coerced (r : FollowCommitRecord) : FollowCommitRecord :=
  { r with
    fromTXID := Utf8.coerce r.fromTXID
    toTXID := Utf8.coerce r.toTXID
    stage := Utf8.coerce r.stage
    oldSHA256 := Utf8.coerce r.oldSHA256
    newSHA256 := Utf8.coerce r.newSHA256 }

/-- The members as they are read. -/
def FollowCommitRecord.members (r : FollowCommitRecord) : List (Bytes × Json) :=
  [(versionName, .number (Json.formatInt r.version)),
    (fromTXIDName, .string (Utf8.coerce r.fromTXID)),
    (toTXIDName, .string (Utf8.coerce r.toTXID)), (stageName, .string (Utf8.coerce r.stage)),
    (oldSizeName, .number (Json.formatInt r.oldSize)),
    (oldSHA256Name, .string (Utf8.coerce r.oldSHA256)),
    (newSizeName, .number (Json.formatInt r.newSize)),
    (newSHA256Name, .string (Utf8.coerce r.newSHA256))]

theorem decodeMembers_members {r r' : FollowCommitRecord} (h : decodeMembers r.members = some r') :
    r' = r.coerced := by
  have hnames : wantFields.reverse.Nodup := by decide
  simp only [wantFields, List.reverse_cons, List.reverse_nil, List.nil_append, List.cons_append,
    List.nodup_cons, List.mem_cons, List.not_mem_nil, or_false, not_or, not_false_eq_true,
    List.nodup_nil, and_true] at hnames
  simp only [decodeMembers, members, List.foldlM_cons, List.foldlM_nil, decodeMember, decodeInt,
    decodeString, hnames, if_true, if_false, Option.bind_eq_bind, Option.map_some,
    Option.bind_some] at h
  obtain ⟨_, hr, h⟩ := Option.bind_eq_some_iff.mp h
  obtain ⟨version, hversion, rfl⟩ := Option.map_eq_some_iff.mp hr
  obtain ⟨_, hr, h⟩ := Option.bind_eq_some_iff.mp h
  obtain ⟨oldSize, holdSize, rfl⟩ := Option.map_eq_some_iff.mp hr
  obtain ⟨_, hr, h⟩ := Option.bind_eq_some_iff.mp h
  obtain ⟨newSize, hnewSize, rfl⟩ := Option.map_eq_some_iff.mp hr
  obtain rfl := parseInt_formatInt_eq hversion
  obtain rfl := parseInt_formatInt_eq holdSize
  obtain rfl := parseInt_formatInt_eq hnewSize
  exact (Option.some.inj h).symm

theorem parse_encodeRecord (r : FollowCommitRecord) :
    Json.parse (encodeRecord r) = some (.object r.members) := by
  have hparse := Json.parse_formatObject
    [(versionName, Json.formatInt r.version, .number (Json.formatInt r.version)),
      (fromTXIDName, Json.formatString r.fromTXID, .string (Utf8.coerce r.fromTXID)),
      (toTXIDName, Json.formatString r.toTXID, .string (Utf8.coerce r.toTXID)),
      (stageName, Json.formatString r.stage, .string (Utf8.coerce r.stage)),
      (oldSizeName, Json.formatInt r.oldSize, .number (Json.formatInt r.oldSize)),
      (oldSHA256Name, Json.formatString r.oldSHA256, .string (Utf8.coerce r.oldSHA256)),
      (newSizeName, Json.formatInt r.newSize, .number (Json.formatInt r.newSize)),
      (newSHA256Name, Json.formatString r.newSHA256, .string (Utf8.coerce r.newSHA256))]
    (by
      simp only [List.forall_mem_cons, List.not_mem_nil, false_implies, implies_true, and_true]
      exact ⟨Json.encodes_int _, Json.encodes_string _, Json.encodes_string _,
        Json.encodes_string _, Json.encodes_int _, Json.encodes_string _, Json.encodes_int _,
        Json.encodes_string _⟩)
    (List.cons_ne_nil _ _)
  have hnames : wantFields.map Utf8.coerce = wantFields := by decide
  simp only [wantFields, List.map_cons, List.map_nil, List.cons.injEq, and_true] at hnames
  simp only [List.map_cons, List.map_nil, hnames] at hparse
  exact hparse

/-- A record that was written and can be read is read back with its texts coerced. -/
theorem readFollowCommitRecord_encode {r r' : FollowCommitRecord}
    (h : readFollowCommitRecord (encodeRecord r) = .ok r') : r' = r.coerced := by
  rw [readFollowCommitRecord, parse_encodeRecord] at h
  simp only at h
  split at h
  · cases h
  split at h
  · cases h
  split at h
  · cases h
  cases hmembers : decodeMembers r.members with
  | none =>
      rw [hmembers] at h
      cases h
  | some record =>
      rw [hmembers] at h
      simp only at h
      split at h
      · cases h
      split at h
      · cases h
      obtain rfl := Except.ok.inj h
      exact decodeMembers_members hmembers

end Litestream
