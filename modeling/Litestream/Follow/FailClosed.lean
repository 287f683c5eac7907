import Litestream.Follow.Commit

/-!
# What a recovery accepts

A recovery that finds a record should go on only if the record is of the specified format
(`SpecifiedRecord`) and the database and the TXID file are of one of its two generations
(`Reconcilable`).  In every other case it should fail and leave all files as they are.

`encoding/json` leaves the field of a `null` member at zero and keeps the last one of several
members with a name, and a TXID file that holds zero is read like none.  `failsClosed_iff` says
that the recovery fails closed unless it accepts something for one of these three reasons.
-/

namespace Litestream

open Bytes FollowCommitRecord

/-! ## The specified format -/

/-- The members are the fields of the record, each with a value of its type. -/
structure Fields (members : List (Bytes × Json)) (r : FollowCommitRecord) : Prop where
  /-- Each of the eight names once, in any order. -/
  names : (members.map Prod.fst).Perm wantFields
  version : ∃ lexeme, (versionName, .number lexeme) ∈ members ∧
    Json.parseInt lexeme = some r.version
  fromTXID : (fromTXIDName, .string r.fromTXID) ∈ members
  toTXID : (toTXIDName, .string r.toTXID) ∈ members
  stage : (stageName, .string r.stage) ∈ members
  oldSize : ∃ lexeme, (oldSizeName, .number lexeme) ∈ members ∧
    Json.parseInt lexeme = some r.oldSize
  oldSHA256 : (oldSHA256Name, .string r.oldSHA256) ∈ members
  newSize : ∃ lexeme, (newSizeName, .number lexeme) ∈ members ∧
    Json.parseInt lexeme = some r.newSize
  newSHA256 : (newSHA256Name, .string r.newSHA256) ∈ members

/-- A digest as 64 lowercase digits. -/
def IsDigest (s : Bytes) : Prop := s.length = 64 ∧ ∀ c ∈ s, c ∈ hexDigits

/-- The bytes of a record of a commit of one TXID on another, as specified. -/
structure SpecifiedRecord (outputPath data : Bytes) (r : FollowCommitRecord)
    (fromTXID toTXID : Nat) : Prop where
  newline : data.getLast? = some 0x0A
  fields : ∃ members, Json.parse data = some (.object members) ∧ Fields members r
  version : r.version = 1
  from_eq : r.fromTXID = hex16 fromTXID
  to_eq : r.toTXID = hex16 toTXID
  lt : fromTXID < toTXID
  toTXID_lt : toTXID < txidLimit
  newSize : 0 ≤ r.newSize
  newSHA256 : IsDigest r.newSHA256
  initial : fromTXID = 0 → r.oldSize = -1 ∧ r.oldSHA256 = []
  later : fromTXID ≠ 0 → 0 ≤ r.oldSize ∧ IsDigest r.oldSHA256
  /-- The staged database is in the directory of the database. -/
  stage_base : fileBase r.stage = r.stage
  stage_prefix : stagePrefix outputPath (fromTXID = 0) <+: r.stage

section
variable (format : TXIDFormat) (sha256 : Bytes → Bytes) (outputPath : Bytes)

/-- The database and the TXID file are of one of the two generations. -/
inductive Reconcilable (r : FollowCommitRecord) (fromTXID toTXID : Nat) (d : Directory) : Prop
  | new (hdatabase : Visible sha256 outputPath d r.newSize r.newSHA256)
      (htxid : readTXIDFile format outputPath d = .ok fromTXID ∨
        readTXIDFile format outputPath d = .ok toTXID)
  | old (hsize : 0 ≤ r.oldSize) (hdatabase : Visible sha256 outputPath d r.oldSize r.oldSHA256)
      (htxid : readTXIDFile format outputPath d = .ok fromTXID)
  | initial (hfrom : fromTXID = 0) (hdatabase : d outputPath = none)
      (htxid : d (txidPath outputPath) = none)

/-- A record as specified, and one of its generations. -/
def Specified (d : Directory) (data : Bytes) : Prop :=
  ∃ r fromTXID toTXID, SpecifiedRecord outputPath data r fromTXID toTXID ∧
    Reconcilable format sha256 outputPath r fromTXID toTXID d

/-- Recovery of a record succeeds only if all is as specified, and else it fails and does
nothing. -/
def FailsClosed (d : Directory) : Prop :=
  ∀ data, d (followCommitPath outputPath) = some data →
    (∀ txID, (recoverFollowCommit format sha256 outputPath d).2 = .ok txID →
      Specified format sha256 outputPath d data) ∧
    (¬ Specified format sha256 outputPath d data →
      ∃ e, recoverFollowCommit format sha256 outputPath d = ([], .error e))

/-! ## What the recovery tests -/

/-- The record passes the checks, and the database and the TXID file pass the tests. -/
structure Accepted (data : Bytes) (r : FollowCommitRecord) (k : CheckedRecord) (currentTXID : Nat)
    (d : Directory) : Prop where
  read : readFollowCommitRecord data = .ok r
  check : checkRecord format outputPath r = .ok k
  txid : readTXIDFile format outputPath d = .ok currentTXID
  generation : Visible sha256 outputPath d r.newSize r.newSHA256 ∧
      (currentTXID = k.fromTXID ∨ currentTXID = k.toTXID) ∨
    (0 ≤ r.oldSize ∧ Visible sha256 outputPath d r.oldSize r.oldSHA256 ∨
        d outputPath = none ∧ k.fromTXID = 0) ∧ currentTXID = k.fromTXID

/-- What is accepted has no `null` member and no name twice, and if there is no database then there
is no TXID file. -/
def PlainRecord (d : Directory) : Prop :=
  ∀ data, d (followCommitPath outputPath) = some data → ∀ r k currentTXID,
    Accepted format sha256 outputPath data r k currentTXID d →
      (∀ members, Json.parse data = some (.object members) →
        (members.map Prod.fst).Nodup ∧ ∀ name, (name, Json.null) ∉ members) ∧
      (d outputPath = none → d (txidPath outputPath) = none)

end

variable {format : TXIDFormat} {outputPath data : Bytes} {d : Directory}
  {r r' : FollowCommitRecord} {members : List (Bytes × Json)}

/-! ## Decoding -/

/-- A member is decoded into the field of its name, and the other fields stay. -/
inductive Decoded (r : FollowCommitRecord) (m : Bytes × Json) : FollowCommitRecord → Prop
  | version {x : Int} (hname : m.1 = versionName) (h : decodeInt r.version m.2 = some x) :
      Decoded r m { r with version := x }
  | fromTXID {x : Bytes} (hname : m.1 = fromTXIDName) (h : decodeString r.fromTXID m.2 = some x) :
      Decoded r m { r with fromTXID := x }
  | toTXID {x : Bytes} (hname : m.1 = toTXIDName) (h : decodeString r.toTXID m.2 = some x) :
      Decoded r m { r with toTXID := x }
  | stage {x : Bytes} (hname : m.1 = stageName) (h : decodeString r.stage m.2 = some x) :
      Decoded r m { r with stage := x }
  | oldSize {x : Int} (hname : m.1 = oldSizeName) (h : decodeInt r.oldSize m.2 = some x) :
      Decoded r m { r with oldSize := x }
  | oldSHA256 {x : Bytes} (hname : m.1 = oldSHA256Name)
      (h : decodeString r.oldSHA256 m.2 = some x) : Decoded r m { r with oldSHA256 := x }
  | newSize {x : Int} (hname : m.1 = newSizeName) (h : decodeInt r.newSize m.2 = some x) :
      Decoded r m { r with newSize := x }
  | newSHA256 {x : Bytes} (hname : m.1 = newSHA256Name)
      (h : decodeString r.newSHA256 m.2 = some x) : Decoded r m { r with newSHA256 := x }

theorem decoded_of_decodeMember {m : Bytes × Json} (h : decodeMember r m = some r') :
    Decoded r m r' := by
  unfold decodeMember at h
  split_ifs at h with hversion hfrom hto hstage holdSize holdSHA hnewSize hnewSHA <;>
    obtain ⟨x, hx, rfl⟩ := Option.map_eq_some_iff.mp h
  · exact .version hversion hx
  · exact .fromTXID hfrom hx
  · exact .toTXID hto hx
  · exact .stage hstage hx
  · exact .oldSize holdSize hx
  · exact .oldSHA256 holdSHA hx
  · exact .newSize hnewSize hx
  · exact .newSHA256 hnewSHA hx

/-- Members of one name are decoded into one field, and the others leave it. -/
def FieldOf {α : Type} (name : Bytes) (get : FollowCommitRecord → α)
    (decode : α → Json → Option α) : Prop :=
  ∀ r r' m, Decoded r m r' →
    if m.1 = name then decode (get r) m.2 = some (get r') else get r' = get r

theorem fieldOf_version : FieldOf versionName version decodeInt := by
  intro r r' m h
  cases h <;> simp +decide [*]

theorem fieldOf_fromTXID : FieldOf fromTXIDName fromTXID decodeString := by
  intro r r' m h
  cases h <;> simp +decide [*]

theorem fieldOf_toTXID : FieldOf toTXIDName toTXID decodeString := by
  intro r r' m h
  cases h <;> simp +decide [*]

theorem fieldOf_stage : FieldOf stageName stage decodeString := by
  intro r r' m h
  cases h <;> simp +decide [*]

theorem fieldOf_oldSize : FieldOf oldSizeName oldSize decodeInt := by
  intro r r' m h
  cases h <;> simp +decide [*]

theorem fieldOf_oldSHA256 : FieldOf oldSHA256Name oldSHA256 decodeString := by
  intro r r' m h
  cases h <;> simp +decide [*]

theorem fieldOf_newSize : FieldOf newSizeName newSize decodeInt := by
  intro r r' m h
  cases h <;> simp +decide [*]

theorem fieldOf_newSHA256 : FieldOf newSHA256Name newSHA256 decodeString := by
  intro r r' m h
  cases h <;> simp +decide [*]

section
variable {α : Type} {name : Bytes} {get : FollowCommitRecord → α} {decode : α → Json → Option α}

theorem FieldOf.get_eq (h : FieldOf name get decode) (hname : name ∉ members.map Prod.fst)
    (hdecode : members.foldlM decodeMember r = some r') : get r' = get r := by
  induction members generalizing r with
  | nil => exact congrArg get (Option.some.inj hdecode).symm
  | cons m members ih =>
      rw [List.map_cons, List.mem_cons, not_or] at hname
      obtain ⟨r₁, hr₁, hdecode⟩ := Option.bind_eq_some_iff.mp hdecode
      have hm := h r r₁ m (decoded_of_decodeMember hr₁)
      rw [if_neg (Ne.symm hname.1)] at hm
      exact (ih hname.2 hdecode).trans hm

/-- The one member of a name is what its field was decoded from. -/
theorem FieldOf.exists_member (h : FieldOf name get decode)
    (hnodup : (members.map Prod.fst).Nodup) (hname : name ∈ members.map Prod.fst)
    (hdecode : members.foldlM decodeMember r = some r') :
    ∃ field value, (name, value) ∈ members ∧ decode field value = some (get r') := by
  induction members generalizing r with
  | nil => cases hname
  | cons m members ih =>
      obtain ⟨hnotMem, hnodup⟩ := List.nodup_cons.mp hnodup
      obtain ⟨r₁, hr₁, hdecode⟩ := Option.bind_eq_some_iff.mp hdecode
      have hm := h r r₁ m (decoded_of_decodeMember hr₁)
      by_cases heq : m.1 = name
      · subst heq
        rw [if_pos rfl, ← h.get_eq hnotMem hdecode] at hm
        exact ⟨get r, m.2, List.mem_cons_self, hm⟩
      · rcases List.mem_cons.mp hname with hhead | htail
        · exact absurd hhead.symm heq
        · obtain ⟨field, value, hmem, hvalue⟩ := ih hnodup htail hdecode
          exact ⟨field, value, List.mem_cons_of_mem m hmem, hvalue⟩

end

theorem decodeInt_eq_some {field n : Int} {value : Json} (hnull : value ≠ .null)
    (h : decodeInt field value = some n) :
    ∃ lexeme, value = .number lexeme ∧ Json.parseInt lexeme = some n := by
  cases value with
  | null => exact absurd rfl hnull
  | number lexeme => exact ⟨lexeme, rfl, h⟩
  | bool | string | array | object => cases h

theorem decodeString_eq_some {field text : Bytes} {value : Json} (hnull : value ≠ .null)
    (h : decodeString field value = some text) : value = .string text := by
  cases value with
  | null => exact absurd rfl hnull
  | string s => exact congrArg Json.string (Option.some.inj h)
  | bool | number | array | object => cases h

theorem fields_of_decodeMembers (hnames : (members.map Prod.fst).Perm wantFields)
    (hnull : ∀ name, (name, Json.null) ∉ members) (hdecode : decodeMembers members = some r) :
    Fields members r := by
  have hnodup : (members.map Prod.fst).Nodup := hnames.nodup_iff.mpr (by decide)
  have hmem : ∀ name ∈ wantFields, name ∈ members.map Prod.fst := fun _ h => hnames.mem_iff.mpr h
  have hvalue : ∀ {name value}, (name, value) ∈ members → value ≠ .null := by
    rintro name value hmember rfl
    exact hnull name hmember
  have hint : ∀ {name} {get : FollowCommitRecord → Int}, FieldOf name get decodeInt →
      name ∈ wantFields → ∃ lexeme, (name, .number lexeme) ∈ members ∧
        Json.parseInt lexeme = some (get r) := by
    intro name get hfield hname
    obtain ⟨field, value, hmember, h⟩ := hfield.exists_member hnodup (hmem name hname) hdecode
    obtain ⟨lexeme, rfl, hlexeme⟩ := decodeInt_eq_some (hvalue hmember) h
    exact ⟨lexeme, hmember, hlexeme⟩
  have hstring : ∀ {name} {get : FollowCommitRecord → Bytes}, FieldOf name get decodeString →
      name ∈ wantFields → (name, .string (get r)) ∈ members := by
    intro name get hfield hname
    obtain ⟨field, value, hmember, h⟩ := hfield.exists_member hnodup (hmem name hname) hdecode
    obtain rfl := decodeString_eq_some (hvalue hmember) h
    exact hmember
  exact {
    names := hnames
    version := hint fieldOf_version (by decide)
    fromTXID := hstring fieldOf_fromTXID (by decide)
    toTXID := hstring fieldOf_toTXID (by decide)
    stage := hstring fieldOf_stage (by decide)
    oldSize := hint fieldOf_oldSize (by decide)
    oldSHA256 := hstring fieldOf_oldSHA256 (by decide)
    newSize := hint fieldOf_newSize (by decide)
    newSHA256 := hstring fieldOf_newSHA256 (by decide) }

/-! ## Reading -/

theorem mem_hexDigits_of_lower :
    ∀ c : UInt8, (Json.hexValue c).isSome → toLower c = c → c ∈ hexDigits := by
  decide +kernel

theorem isDigest_of_valid {s : Bytes} (h : validFollowSHA256 s = true) : IsDigest s := by
  simp only [validFollowSHA256, Bool.and_eq_true, beq_iff_eq, List.all_eq_true] at h
  obtain ⟨⟨hlen, hlower⟩, hhex⟩ := h
  have heq : s.map toLower = s.map id := by rw [← hlower, List.map_id]
  exact ⟨hlen, fun c hc => mem_hexDigits_of_lower c (hhex c hc) (List.map_inj_left.mp heq c hc)⟩

/-- What was read is an object of the eight names, with a `null` or a repetition at most. -/
theorem readFollowCommitRecord_eq_ok (h : readFollowCommitRecord data = .ok r) :
    data.getLast? = some 0x0A ∧
      ∃ members, Json.parse data = some (.object members) ∧
        (members.map Prod.fst).dedup.length = wantFields.length ∧
        (∀ name ∈ wantFields, name ∈ members.map Prod.fst) ∧
        decodeMembers members = some r ∧ r.version = 1 ∧ 0 ≤ r.newSize ∧ IsDigest r.newSHA256 := by
  unfold readFollowCommitRecord at h
  split at h
  · cases h
  next hlast =>
  split at h
  · next members hparse =>
      simp only at h
      split at h
      · cases h
      next hlen =>
      split at h
      · cases h
      next hfind =>
      split at h
      · cases h
      next r₁ hdecode =>
      split_ifs at h with hversion hidentity
      obtain rfl := Except.ok.inj h
      obtain ⟨hsize, hdigest⟩ := not_or.mp hidentity
      refine ⟨not_not.mp hlast, members, hparse, not_not.mp hlen, fun name hname => ?_, hdecode,
        not_not.mp hversion, Int.not_lt.mp hsize,
        isDigest_of_valid (eq_true_of_ne_false hdigest)⟩
      have hmem := List.find?_eq_none.mp hfind name hname
      simpa using hmem
  · cases h
  · cases h

theorem perm_wantFields (hnodup : (members.map Prod.fst).Nodup)
    (hlen : (members.map Prod.fst).dedup.length = wantFields.length)
    (hmem : ∀ name ∈ wantFields, name ∈ members.map Prod.fst) :
    (members.map Prod.fst).Perm wantFields := by
  rw [hnodup.dedup] at hlen
  have hwant : wantFields.Nodup := by decide
  exact ((List.subperm_of_subset hwant hmem).perm_of_length_le hlen.le).symm

/-- Fields are not `null`. -/
theorem Fields.not_null (h : Fields members r) (name : Bytes) : (name, Json.null) ∉ members := by
  have hnodup : (members.map Prod.fst).Nodup := h.names.nodup_iff.mpr (by decide)
  intro hnull
  have hne : ∀ {value}, value ≠ Json.null → (name, value) ∉ members := fun hvalue hmember =>
    hvalue (Prod.ext_iff.mp (List.inj_on_of_nodup_map hnodup hmember hnull rfl)).2
  have hname : name ∈ wantFields := h.names.mem_iff.mp (List.mem_map_of_mem hnull)
  obtain ⟨_, hversion, -⟩ := h.version
  obtain ⟨_, holdSize, -⟩ := h.oldSize
  obtain ⟨_, hnewSize, -⟩ := h.newSize
  simp only [wantFields, List.mem_cons, List.not_mem_nil, or_false] at hname
  rcases hname with rfl | rfl | rfl | rfl | rfl | rfl | rfl | rfl
  · exact hne Json.noConfusion hversion
  · exact hne Json.noConfusion h.fromTXID
  · exact hne Json.noConfusion h.toTXID
  · exact hne Json.noConfusion h.stage
  · exact hne Json.noConfusion holdSize
  · exact hne Json.noConfusion h.oldSHA256
  · exact hne Json.noConfusion hnewSize
  · exact hne Json.noConfusion h.newSHA256

/-! ## Accepting -/

variable {sha256 : Bytes → Bytes} {k : CheckedRecord} {currentTXID : Nat}

theorem reconcile_ok_iff :
    (∃ txID, (reconcile format sha256 outputPath r k currentTXID d).2 = .ok txID) ↔
      Visible sha256 outputPath d r.newSize r.newSHA256 ∧
          (currentTXID = k.fromTXID ∨ currentTXID = k.toTXID) ∨
        (0 ≤ r.oldSize ∧ Visible sha256 outputPath d r.oldSize r.oldSHA256 ∨
            d outputPath = none ∧ k.fromTXID = 0) ∧ currentTXID = k.fromTXID := by
  by_cases hnew : Visible sha256 outputPath d r.newSize r.newSHA256
  · rw [reconcile, if_pos hnew]
    split
    · next hother =>
      refine iff_of_false (by rintro ⟨_, ⟨⟩⟩) ?_
      rintro (⟨-, hcurrent⟩ | ⟨-, hcurrent⟩)
      · exact hcurrent.elim hother.1 hother.2
      · exact hother.1 hcurrent
    · next hother =>
      rw [not_and_or] at hother
      exact iff_of_true ⟨_, rfl⟩ (Or.inl ⟨hnew, hother.imp not_not.mp not_not.mp⟩)
  · rw [reconcile, if_neg hnew]
    split_ifs with hold hcurrent
    · refine iff_of_false (by rintro ⟨_, ⟨⟩⟩) ?_
      exact not_or.mpr ⟨fun h => hnew h.1, fun h => hcurrent h.2⟩
    · refine iff_of_true ⟨_, rfl⟩ (Or.inr ⟨?_, not_not.mp hcurrent⟩)
      exact hold.imp_right fun h => ⟨h.1, h.2.1⟩
    · refine iff_of_false (by rintro ⟨_, ⟨⟩⟩) ?_
      rintro (⟨hvisible, -⟩ | ⟨hgeneration, rfl⟩)
      · exact hnew hvisible
      · exact hold (hgeneration.imp_right fun h => ⟨h.1, h.2, h.2⟩)

/-- A recovery succeeds if and only if it accepts the record. -/
theorem recover_ok_iff (hd : d (followCommitPath outputPath) = some data) :
    (∃ txID, (recoverFollowCommit format sha256 outputPath d).2 = .ok txID) ↔
      ∃ r k currentTXID, Accepted format sha256 outputPath data r k currentTXID d := by
  constructor
  · rintro ⟨txID, hok⟩
    rcases recover_cases format sha256 hd with
      ⟨e, he⟩ | ⟨r, k, currentTXID, hread, hcheck, htxid, hrec⟩
    · rw [he] at hok
      cases hok
    · rw [hrec] at hok
      exact ⟨r, k, currentTXID, hread, hcheck, htxid, reconcile_ok_iff.mp ⟨txID, hok⟩⟩
  · rintro ⟨r, k, currentTXID, h⟩
    rw [recoverFollowCommit, hd]
    simp only [h.read, h.check, h.txid]
    exact reconcile_ok_iff.mpr h.generation

/-- A recovery that fails does nothing. -/
theorem recover_error (hd : d (followCommitPath outputPath) = some data)
    (h : ¬ ∃ txID, (recoverFollowCommit format sha256 outputPath d).2 = .ok txID) :
    ∃ e, recoverFollowCommit format sha256 outputPath d = ([], .error e) := by
  rcases recover_cases format sha256 hd with he | ⟨r, k, currentTXID, -, -, -, hrec⟩
  · exact he
  rw [hrec] at h ⊢
  rw [reconcile] at h ⊢
  split
  · next hnew =>
    rw [if_pos hnew] at h
    split
    · exact ⟨_, rfl⟩
    · next hother =>
      rw [if_neg hother] at h
      exact absurd ⟨_, rfl⟩ h
  · next hnew =>
    rw [if_neg hnew] at h
    split
    · next hold =>
      rw [if_pos hold] at h
      split
      · exact ⟨_, rfl⟩
      · next hcurrent =>
        rw [if_neg hcurrent] at h
        exact absurd ⟨_, rfl⟩ h
    · exact ⟨_, rfl⟩

/-- What is accepted and plain is as specified. -/
theorem Accepted.specified (h : Accepted format sha256 outputPath data r k currentTXID d)
    (hplain : ∀ members, Json.parse data = some (.object members) →
      (members.map Prod.fst).Nodup ∧ ∀ name, (name, Json.null) ∉ members)
    (habsent : d outputPath = none → d (txidPath outputPath) = none) :
    Specified format sha256 outputPath d data := by
  obtain ⟨hlast, members, hparse, hlen, hmem, hdecode, hversion, hsize, hdigest⟩ :=
    readFollowCommitRecord_eq_ok h.read
  obtain ⟨hnodup, hnull⟩ := hplain members hparse
  obtain ⟨-, hto, hfromEq, htoEq, hlt, hinitial, hlater, hstage⟩ := checkRecord_eq_ok.mp h.check
  obtain ⟨-, hbase, hpre, -⟩ := followStagePath_eq_some.mp hstage
  have hrecord : SpecifiedRecord outputPath data r k.fromTXID k.toTXID := {
    newline := hlast
    fields := ⟨members, hparse,
      fields_of_decodeMembers (perm_wantFields hnodup hlen hmem) hnull hdecode⟩
    version := hversion
    from_eq := by rw [← hfromEq, format.string_eq]
    to_eq := by rw [← htoEq, format.string_eq]
    lt := hlt
    toTXID_lt := format.parseTXID_lt hto
    newSize := hsize
    newSHA256 := hdigest
    initial := hinitial
    later := fun hpos => (hlater hpos).imp_right isDigest_of_valid
    stage_base := hbase
    stage_prefix := hpre }
  refine ⟨r, k.fromTXID, k.toTXID, hrecord, ?_⟩
  rcases h.generation with ⟨hvisible, hcurrent⟩ | ⟨⟨hold, hvisible⟩ | ⟨hnone, h0⟩, hcurrent⟩
  · refine .new hvisible (hcurrent.imp ?_ ?_) <;> (rintro rfl; exact h.txid)
  · exact .old hold hvisible (hcurrent ▸ h.txid)
  · exact .initial h0 hnone (habsent hnone)

/-- What is as specified is plain. -/
theorem Specified.plain (h : Specified format sha256 outputPath d data) :
    (∀ members, Json.parse data = some (.object members) →
      (members.map Prod.fst).Nodup ∧ ∀ name, (name, Json.null) ∉ members) ∧
      (d outputPath = none → d (txidPath outputPath) = none) := by
  obtain ⟨r, fromTXID, toTXID, hrecord, hgeneration⟩ := h
  obtain ⟨members, hparse, hfields⟩ := hrecord.fields
  constructor
  · intro members' hparse'
    obtain rfl : members = members' := by
      rw [hparse] at hparse'
      exact Json.object.inj (Option.some.inj hparse')
    exact ⟨hfields.names.nodup_iff.mpr (by decide), hfields.not_null⟩
  · intro hnone
    cases hgeneration with
    | new hvisible _ | old _ hvisible _ =>
        rw [Visible, hnone] at hvisible
        cases hvisible
    | initial _ _ htxid => exact htxid

/-- A recovery fails closed if and only if the record that it accepts is plain. -/
theorem failsClosed_iff :
    FailsClosed format sha256 outputPath d ↔ PlainRecord format sha256 outputPath d := by
  constructor
  · intro h data hd r k currentTXID haccepted
    obtain ⟨txID, hok⟩ := (recover_ok_iff hd).mpr ⟨r, k, currentTXID, haccepted⟩
    exact ((h data hd).1 txID hok).plain
  · intro h data hd
    have hspecified : ∀ txID, (recoverFollowCommit format sha256 outputPath d).2 = .ok txID →
        Specified format sha256 outputPath d data := by
      intro txID hok
      obtain ⟨r, k, currentTXID, haccepted⟩ := (recover_ok_iff hd).mp ⟨txID, hok⟩
      obtain ⟨hplain, habsent⟩ := h data hd r k currentTXID haccepted
      exact haccepted.specified hplain habsent
    refine ⟨hspecified, fun hnot => recover_error hd ?_⟩
    rintro ⟨txID, hok⟩
    exact hnot (hspecified txID hok)

/-! ## A `null` member -/

namespace NullMember

/-- A record of an initial commit whose `old_sha256` is `null`. -/
def recordData : Bytes :=
  Json.formatObject [(versionName, Json.formatInt 1), (fromTXIDName, Json.formatString (hex16 0)),
    (toTXIDName, Json.formatString (hex16 1)),
    (stageName, Json.formatString (ascii ".db-restore-5")), (oldSizeName, Json.formatInt (-1)),
    (oldSHA256Name, ascii "null"), (newSizeName, Json.formatInt 1),
    (newSHA256Name, Json.formatString (List.replicate 64 0x30))] ++ [0x0A]

/-- There is neither a database nor a TXID file. -/
def start : Directory := fun name => if name = ascii "db-follow" then some recordData else none

def isNull : Json → Bool
  | .null => true
  | _ => false

/-- Whether a value is an object with a `null` member. -/
def hasNull : Option Json → Bool
  | some (.object members) => members.any fun m => isNull m.2
  | _ => false

theorem exists_null {value : Option Json} (h : hasNull value = true) :
    ∃ members name, value = some (.object members) ∧ (name, Json.null) ∈ members := by
  unfold hasNull at h
  split at h
  · next members =>
    obtain ⟨⟨name, v⟩, hmem, hnull⟩ := List.any_eq_true.mp h
    cases v with
    | null => exact ⟨members, name, rfl, hmem⟩
    | bool | number | string | array | object => cases hnull
  · cases h

end NullMember

/-- The member is taken for an empty digest, and the record and the stage are removed. -/
theorem null_accepted :
    ¬ FailsClosed txidFormat OneByte.digest (ascii "db") NullMember.start := by
  intro h
  have hok : (recoverFollowCommit txidFormat OneByte.digest (ascii "db") NullMember.start).2 =
      .ok 0 := by
    decide +kernel
  have hrecord : NullMember.start (followCommitPath (ascii "db")) = some NullMember.recordData := by
    decide +kernel
  obtain ⟨members, name, hparse, hnull⟩ :=
    NullMember.exists_null (show NullMember.hasNull (Json.parse NullMember.recordData) = true by
      decide +kernel)
  exact (((h NullMember.recordData hrecord).1 0 hok).plain.1 members hparse).2 name hnull

end Litestream
