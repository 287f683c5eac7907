import Litestream.Config.URL

/-!
# Directory replication

A directory source stands for all databases below a directory.  The configuration of each is a
copy of that of the directory, with the path of the database relative to the directory behind the
meta path and behind the path or the URL of each replica (`newDBFromDirectoryEntry`).

`separated_iff` says when the configurations of two databases have nothing in common: when no
replica has a URL with an opaque part.  Such a URL has no path to append to.

Paths are those of a system with slashes.
-/

namespace Litestream

open Bytes SlashPath

/-! ## Configurations -/

structure ReplicaConfig where
  type : Bytes
  path : Bytes
  url : Bytes
deriving DecidableEq, Repr

structure DBConfig where
  path : Bytes
  dir : Bytes
  pattern : Bytes
  recursive : Bool
  watch : Bool
  metaPath : Option Bytes
  replica : Option ReplicaConfig
  /-- The deprecated list of replicas. -/
  replicas : List (Option ReplicaConfig)
deriving DecidableEq, Repr

inductive ConfigError where
  /-- The working directory is not known. -/
  | getwd (message : String)
  | homeDir (message : String)
  | noHomeDir (path : Bytes)
  | expandMetaPath (err : ConfigError)
  | parseReplicaURL (err : URLError)
  | configureReplica (err : ConfigError)
  | configureReplicaAt (i : Nat) (err : ConfigError)
deriving DecidableEq, Repr

/-- What the operating system and the reading of URLs answer. -/
structure Platform where
  cwd : Except String Bytes
  homeDir : Except String Bytes
  parseAuthority : Bytes → Except URLError (Option Userinfo × Bytes)

/-! ## Paths -/

def metaDirSuffix : Bytes := ascii "-litestream"

/-- Strips the start of a SQLite connection string. -/
def stripSQLitePrefix (s : Bytes) : Bytes :=
  if s.length < 9 ∨ s.head? ≠ some 0x73 then s
  else if ascii "sqlite3://" <+: s then s.drop (ascii "sqlite3://").length
  else if ascii "sqlite://" <+: s then s.drop (ascii "sqlite://").length
  else s

/-- Makes a path absolute. -/
def abs (platform : Platform) (s : Bytes) : Except ConfigError Bytes :=
  if rooted s then .ok (clean s)
  else
    match platform.cwd with
    | .error message => .error (.getwd message)
    | .ok cwd => .ok (join [cwd, s])

/-- Makes a path absolute, and replaces a tilde by the home directory. -/
def expand (platform : Platform) (path : Bytes) : Except ConfigError Bytes :=
  let s := stripSQLitePrefix path
  if s ≠ ascii "~" ∧ ¬ ascii "~/" <+: s then abs platform s
  else
    match platform.homeDir with
    | .error message => .error (.homeDir message)
    | .ok home =>
        if home = [] then .error (.noHomeDir s)
        else if s = ascii "~" then .ok home
        else .ok (join [home, s.drop (ascii "~/").length])

/-- The metadata directory of a database below a directory. -/
def deriveMetaPathForDirectoryEntry (basePath relPath : Bytes) : Bytes :=
  let relPath := clean relPath
  if relPath = dot ∨ relPath = [] then basePath
  else
    let (relDir, relFile) := split relPath
    if relFile = [] ∨ relFile = dot then join [basePath, relPath]
    else join [basePath, relDir, dot ++ relFile ++ metaDirSuffix]

/-! ## Replicas -/

/-- Appends a relative path to the path of a URL. -/
def appendRelativePathToURL (u : URL) (relPath : Bytes) : URL :=
  let cleanRel := trimSlash relPath
  if cleanRel = [] ∨ cleanRel = dot then u
  else
    let joined := if u.path = [] then cleanRel else join [u.path, cleanRel]
    { u with path := slash :: trimSlash joined }

/-- The type of a replica without a URL. -/
def ReplicaConfig.replicaType (c : ReplicaConfig) : Bytes :=
  if c.type ≠ [] then c.type else ascii "file"

/-- Copies a replica, with the relative path behind its URL or its path. -/
def cloneReplicaConfigWithRelativePath (platform : Platform) (relPath : Bytes) :
    Option ReplicaConfig → Except ConfigError (Option ReplicaConfig)
  | none => .ok none
  | some base =>
      if relPath = [] ∨ relPath = dot then .ok (some base)
      else if base.url ≠ [] then
        match URL.parse platform.parseAuthority base.url with
        | .error err => .error (.parseReplicaURL err)
        | .ok u => .ok (some { base with url := (appendRelativePathToURL u relPath).string })
      else if base.replicaType = ascii "file" then
        .ok (some { base with
          path := if base.path ≠ [] then join [base.path, relPath] else relPath })
      else
        .ok (some { base with
          path := if base.path ≠ [] then join [base.path, relPath] else relPath })

/-- Copies the replicas of the deprecated list, the first of them with number `i`. -/
def cloneReplicas (platform : Platform) (relPath : Bytes) :
    Nat → List (Option ReplicaConfig) → Except ConfigError (List (Option ReplicaConfig))
  | _, [] => .ok []
  | i, base :: bases =>
      match cloneReplicaConfigWithRelativePath platform relPath base with
      | .error err => .error (.configureReplicaAt i err)
      | .ok replica =>
          match cloneReplicas platform relPath (i + 1) bases with
          | .error err => .error err
          | .ok replicas => .ok (replica :: replicas)

/-- The meta path of a database below a directory, if the directory has one. -/
def entryMetaPath (platform : Platform) (relPath : Bytes) :
    Option Bytes → Except ConfigError (Option Bytes)
  | none => .ok none
  | some metaPath =>
      match expand platform metaPath with
      | .error err => .error (.expandMetaPath err)
      | .ok baseMetaPath => .ok (some (deriveMetaPathForDirectoryEntry baseMetaPath relPath))

/-- The configuration of a database below a directory.  `relPath` is its path relative to the
directory. -/
def newDBFromDirectoryEntry (platform : Platform) (dbc : DBConfig) (dbPath relPath : Bytes) :
    Except ConfigError DBConfig :=
  match entryMetaPath platform relPath dbc.metaPath with
  | .error err => .error err
  | .ok metaPath =>
      match cloneReplicaConfigWithRelativePath platform relPath dbc.replica with
      | .error err => .error (.configureReplica err)
      | .ok replica =>
          match cloneReplicas platform relPath 0 dbc.replicas with
          | .error err => .error err
          | .ok replicas =>
              .ok {
                path := dbPath
                dir := []
                pattern := []
                recursive := false
                watch := false
                metaPath := metaPath
                replica := replica
                replicas := replicas }

/-! ## Destinations -/

/-- Where a replica is written: its URL, or its path if it has none. -/
def ReplicaConfig.destination (c : ReplicaConfig) : Bytes := if c.url ≠ [] then c.url else c.path

/-- The configured replicas of two lists have different destinations. -/
def Apart (r r' : Option ReplicaConfig) : Prop :=
  ∀ c ∈ r, ∀ c' ∈ r', c.destination ≠ c'.destination

/-- The configurations of two databases have no meta path and no destination in common. -/
structure Separated (c c' : DBConfig) : Prop where
  metaPath : ∀ m ∈ c.metaPath, ∀ m' ∈ c'.metaPath, m ≠ m'
  replica : Apart c.replica c'.replica
  replicas : List.Forall₂ Apart c.replicas c'.replicas

/-- If the replica has a URL, what stands behind its scheme starts with a slash or is empty. -/
def Hierarchical (platform : Platform) (r : Option ReplicaConfig) : Prop :=
  ∀ c ∈ r, c.url ≠ [] → ∀ u, URL.parse platform.parseAuthority c.url = .ok u → u.opaquePart = []

variable {platform : Platform} {base p q : Bytes} {segs : List Bytes} {u : URL}
  {r r₁ r₂ : Option ReplicaConfig} {rs rs₁ rs₂ : List (Option ReplicaConfig)}

/-! ## Meta paths -/

theorem normal_metaDirName {file : Bytes} (h : Normal file) :
    Normal (dot ++ file ++ metaDirSuffix) := by
  refine ⟨by simp [dot], fun heq => ?_, fun heq => ?_, fun hmem => ?_⟩
  · exact absurd (congrArg List.length heq) (by simp [dot, metaDirSuffix, ascii])
  · exact absurd (congrArg List.length heq) (by simp [dot, dotDot, metaDirSuffix, ascii])
  · rcases List.mem_append.mp hmem with hmem | hmem
    · rcases List.mem_append.mp hmem with hmem | hmem
      · exact absurd hmem (by decide)
      · exact h.slash_notMem hmem
    · exact absurd hmem (by decide)

/-- The meta path of a database is what remains of the base, the directories and the name. -/
theorem deriveMetaPath_unsplit {file : Bytes} (hlocal : Local (unsplit (segs ++ [file])))
    (hsegs : ∀ seg ∈ segs, Normal seg) (hfile : Normal file) :
    deriveMetaPathForDirectoryEntry base (unsplit (segs ++ [file])) =
      rootOf base ++ unsplit (resolve base ++ (segs ++ [dot ++ file ++ metaDirSuffix])) := by
  obtain ⟨hfile', hdir, hroot⟩ := split_unsplit hsegs hfile
  have hne : unsplit (segs ++ [file]) ≠ [] := by
    intro hnil
    rw [hnil] at hfile'
    exact hfile.ne_nil hfile'.symm
  have hdirs : segments (split (unsplit (segs ++ [file]))).1 = segs ++ [[]] := hdir
  rw [deriveMetaPathForDirectoryEntry]
  dsimp only
  rw [hlocal.clean_eq, if_neg (by simp [hlocal.ne_dot, hne]), hfile',
    if_neg (by simp [hfile.ne_nil, hfile.ne_dot])]
  exact join_directory hdirs hsegs hroot (normal_metaDirName hfile)

theorem deriveMetaPath_injective (hp : Local p) (hq : Local q)
    (h : deriveMetaPathForDirectoryEntry base p = deriveMetaPathForDirectoryEntry base q) :
    p = q := by
  obtain ⟨segs, hne, hsegs, rfl⟩ := hp.exists_segments
  obtain ⟨segs', hne', hsegs', rfl⟩ := hq.exists_segments
  have hsplit : ∀ {segs : List Bytes}, segs ≠ [] → (∀ seg ∈ segs, Normal seg) →
      ∃ dirs file, segs = dirs ++ [file] ∧ (∀ seg ∈ dirs, Normal seg) ∧ Normal file := by
    intro segs hne hsegs
    refine ⟨segs.dropLast, segs.getLast hne, (List.dropLast_append_getLast hne).symm,
      fun seg hseg => hsegs seg (List.mem_of_mem_dropLast hseg), hsegs _ (List.getLast_mem hne)⟩
  obtain ⟨dirs, file, rfl, hdirs, hfile⟩ := hsplit hne hsegs
  obtain ⟨dirs', file', rfl, hdirs', hfile'⟩ := hsplit hne' hsegs'
  rw [deriveMetaPath_unsplit hp hdirs hfile, deriveMetaPath_unsplit hq hdirs' hfile'] at h
  have hall : ∀ {dirs : List Bytes} {file : Bytes}, (∀ seg ∈ dirs, Normal seg) → Normal file →
      ∀ seg ∈ dirs ++ [dot ++ file ++ metaDirSuffix], Normal seg := by
    intro dirs file hdirs hfile seg hseg
    rcases List.mem_append.mp hseg with hseg | hseg
    · exact hdirs seg hseg
    · rw [List.mem_singleton.mp hseg]
      exact normal_metaDirName hfile
  have heq := unsplit_injective (fun seg hseg => mem_resolve hseg) (by simp)
    (hall hdirs hfile) (by simp) (hall hdirs' hfile') (List.append_cancel_left h)
  obtain ⟨rfl, hname⟩ := List.append_inj' heq rfl
  have hname' := (List.cons.inj hname).1
  rw [List.append_cancel_left (List.append_cancel_right hname')]

/-! ## Replicas -/

/-- The path of a URL with a local path behind it. -/
theorem appendRelativePathToURL_unsplit (hlocal : Local (unsplit segs)) (hne : segs ≠ [])
    (hsegs : ∀ seg ∈ segs, Normal seg) :
    appendRelativePathToURL u (unsplit segs) =
      { u with path := slash :: unsplit (resolve u.path ++ segs) } := by
  have htail : trimSlash (rootOf u.path ++ unsplit (resolve u.path ++ segs)) =
      unsplit (resolve u.path ++ segs) := by
    have hfront := fun seg (hseg : seg ∈ resolve u.path) => mem_resolve hseg
    have hrooted := rooted_unsplit (mem_append_normal hfront hsegs)
    rw [rootOf]
    split
    · rfl
    · exact trimSlash_of_rooted_false hrooted
  rw [appendRelativePathToURL]
  dsimp only
  rw [trimSlash_of_rooted_false hlocal.rooted_eq,
    if_neg (by simp [hlocal.ne_dot, hlocal.ne_nil])]
  split
  next hpath =>
    rw [hpath, resolve_nil, List.nil_append, trimSlash_of_rooted_false hlocal.rooted_eq]
  next hpath => rw [join_unsplit hne hsegs, htail]

/-- Two texts of a URL with local paths behind it are different exactly when it has no opaque
part. -/
theorem string_append_ne_iff (hp : Local p) (hq : Local q) (hne : p ≠ q) :
    (appendRelativePathToURL u p).string ≠ (appendRelativePathToURL u q).string ↔
      u.opaquePart = [] := by
  obtain ⟨segs, hsne, hsegs, rfl⟩ := hp.exists_segments
  obtain ⟨segs', hsne', hsegs', rfl⟩ := hq.exists_segments
  rw [appendRelativePathToURL_unsplit hp hsne hsegs,
    appendRelativePathToURL_unsplit hq hsne' hsegs']
  constructor
  · intro hstring
    by_contra hpart
    exact hstring ((URL.string_of_opaquePart hpart _).trans (URL.string_of_opaquePart hpart _).symm)
  · intro hpart hstring
    have hfront := fun seg (hseg : seg ∈ resolve u.path) => mem_resolve hseg
    have heq := URL.path_of_string hpart (rooted_unsplit (mem_append_normal hfront hsegs))
      (rooted_unsplit (mem_append_normal hfront hsegs')) hstring
    exact hne (congrArg unsplit (unsplit_injective hfront hsne hsegs hsne' hsegs' heq))

theorem string_append_ne_nil (hp : Local p) : (appendRelativePathToURL u p).string ≠ [] := by
  obtain ⟨segs, hne, hsegs, rfl⟩ := hp.exists_segments
  rw [appendRelativePathToURL_unsplit hp hne hsegs]
  exact URL.string_ne_nil (List.cons_ne_nil _ _)

theorem path_append_injective (hp : Local p) (hq : Local q)
    (h : (if base ≠ [] then join [base, p] else p) = if base ≠ [] then join [base, q] else q) :
    p = q := by
  split at h
  · exact join_injective hp hq h
  · exact h

/-- Two copies of a replica are apart exactly when its URL has a path to append to. -/
theorem apart_iff (hp : Local p) (hq : Local q) (hne : p ≠ q)
    (h₁ : cloneReplicaConfigWithRelativePath platform p r = .ok r₁)
    (h₂ : cloneReplicaConfigWithRelativePath platform q r = .ok r₂) :
    Apart r₁ r₂ ↔ Hierarchical platform r := by
  cases r with
  | none =>
      cases h₁
      cases h₂
      constructor
      · rintro - c hc
        cases hc
      · rintro - c hc
        cases hc
  | some base =>
      rw [cloneReplicaConfigWithRelativePath, if_neg (by simp [hp.ne_nil, hp.ne_dot])] at h₁
      rw [cloneReplicaConfigWithRelativePath, if_neg (by simp [hq.ne_nil, hq.ne_dot])] at h₂
      by_cases hurl : base.url ≠ []
      · rw [if_pos hurl] at h₁ h₂
        cases hparse : URL.parse platform.parseAuthority base.url with
        | error err =>
            rw [hparse] at h₁
            cases h₁
        | ok u =>
            rw [hparse] at h₁ h₂
            cases h₁
            cases h₂
            have hapart : Apart
                (some { base with url := (appendRelativePathToURL u p).string })
                (some { base with url := (appendRelativePathToURL u q).string }) ↔
                  (appendRelativePathToURL u p).string ≠ (appendRelativePathToURL u q).string := by
              simp only [Apart, Option.mem_def, Option.some.injEq, forall_eq',
                ReplicaConfig.destination, ne_eq, string_append_ne_nil hp, string_append_ne_nil hq,
                not_false_eq_true, if_true]
            rw [hapart, string_append_ne_iff hp hq hne]
            constructor
            · rintro hpart c hc - u' hu'
              obtain rfl := Option.some.inj hc
              rw [hparse] at hu'
              obtain rfl := Except.ok.inj hu'
              exact hpart
            · exact fun h => h base rfl hurl u hparse
      · rw [if_neg hurl] at h₁ h₂
        have hpath : ∀ {p : Bytes} {r : Option ReplicaConfig},
            (if base.replicaType = ascii "file" then
              (.ok (some { base with
                path := if base.path ≠ [] then join [base.path, p] else p }) :
                  Except ConfigError (Option ReplicaConfig))
            else .ok (some { base with
              path := if base.path ≠ [] then join [base.path, p] else p })) = .ok r →
            r = some { base with path := if base.path ≠ [] then join [base.path, p] else p } := by
          intro p r h
          split at h <;> exact (Except.ok.inj h).symm
        obtain rfl := hpath h₁
        obtain rfl := hpath h₂
        constructor
        · rintro - c hc hc' -
          obtain rfl := Option.some.inj hc
          exact absurd hc' hurl
        · rintro - c hc c' hc' heq
          obtain rfl := Option.some.inj hc
          obtain rfl := Option.some.inj hc'
          rw [ReplicaConfig.destination, ReplicaConfig.destination, if_neg hurl, if_neg hurl] at heq
          exact hne (path_append_injective hp hq heq)

theorem apart_replicas_iff (hp : Local p) (hq : Local q) (hne : p ≠ q) {i j : Nat}
    (h₁ : cloneReplicas platform p i rs = .ok rs₁) (h₂ : cloneReplicas platform q j rs = .ok rs₂) :
    List.Forall₂ Apart rs₁ rs₂ ↔ ∀ r ∈ rs, Hierarchical platform r := by
  induction rs generalizing i j rs₁ rs₂ with
  | nil =>
      cases h₁
      cases h₂
      simp
  | cons r rs ih =>
      rw [cloneReplicas] at h₁ h₂
      split at h₁
      · cases h₁
      next r₁ hr₁ =>
        split at h₁
        · cases h₁
        next rs₁ hrs₁ =>
          split at h₂
          · cases h₂
          next r₂ hr₂ =>
            split at h₂
            · cases h₂
            next rs₂ hrs₂ =>
              cases h₁
              cases h₂
              rw [List.forall₂_cons, apart_iff hp hq hne hr₁ hr₂, ih hrs₁ hrs₂,
                List.forall_mem_cons]

/-! ## Databases of a directory -/

/-- What the configuration of a database has from that of the directory. -/
theorem newDBFromDirectoryEntry_ok {dbc c : DBConfig} {dbPath : Bytes}
    (h : newDBFromDirectoryEntry platform dbc dbPath p = .ok c) :
    entryMetaPath platform p dbc.metaPath = .ok c.metaPath ∧
      cloneReplicaConfigWithRelativePath platform p dbc.replica = .ok c.replica ∧
        cloneReplicas platform p 0 dbc.replicas = .ok c.replicas := by
  rw [newDBFromDirectoryEntry] at h
  split at h
  · cases h
  next metaPath hmeta =>
    split at h
    · cases h
    next replica hreplica =>
      split at h
      · cases h
      next replicas hreplicas =>
        cases h
        exact ⟨hmeta, hreplica, hreplicas⟩

/-- Two databases have different meta paths. -/
theorem entryMetaPath_ne (hp : Local p) (hq : Local q) (hne : p ≠ q)
    {metaPath m₁ m₂ : Option Bytes} (h₁ : entryMetaPath platform p metaPath = .ok m₁)
    (h₂ : entryMetaPath platform q metaPath = .ok m₂) : ∀ m ∈ m₁, ∀ m' ∈ m₂, m ≠ m' := by
  cases metaPath with
  | none =>
      cases h₁
      rintro m hm
      cases hm
  | some metaPath =>
      rw [entryMetaPath] at h₁ h₂
      cases hbase : expand platform metaPath with
      | error err =>
          rw [hbase] at h₁
          cases h₁
      | ok base =>
          rw [hbase] at h₁ h₂
          cases h₁
          cases h₂
          rintro m hm m' hm' rfl
          rw [Option.mem_def, Option.some.injEq] at hm hm'
          exact hne (deriveMetaPath_injective hp hq (hm.trans hm'.symm))

/-- The configurations of two databases of a directory are separated exactly when what stands
behind the scheme of the URL of each replica starts with a slash or is empty. -/
theorem separated_iff (platform : Platform) (dbc : DBConfig) (dbPath dbPath' p q : Bytes)
    (c c' : DBConfig) (hp : Local p) (hq : Local q) (hne : p ≠ q)
    (hc : newDBFromDirectoryEntry platform dbc dbPath p = .ok c)
    (hc' : newDBFromDirectoryEntry platform dbc dbPath' q = .ok c') :
    Separated c c' ↔
      Hierarchical platform dbc.replica ∧ ∀ r ∈ dbc.replicas, Hierarchical platform r := by
  obtain ⟨hmeta, hreplica, hreplicas⟩ := newDBFromDirectoryEntry_ok hc
  obtain ⟨hmeta', hreplica', hreplicas'⟩ := newDBFromDirectoryEntry_ok hc'
  constructor
  · intro h
    exact ⟨(apart_iff hp hq hne hreplica hreplica').mp h.replica,
      (apart_replicas_iff hp hq hne hreplicas hreplicas').mp h.replicas⟩
  · rintro ⟨hhier, hhiers⟩
    exact ⟨entryMetaPath_ne hp hq hne hmeta hmeta',
      (apart_iff hp hq hne hreplica hreplica').mpr hhier,
      (apart_replicas_iff hp hq hne hreplicas hreplicas').mpr hhiers⟩

/-- A system with a working directory. -/
def Platform.sample : Platform :=
  ⟨.ok (ascii "/srv"), .ok (ascii "/root"), fun authority => .ok (none, authority)⟩

/-- A directory with a meta path and one replica. -/
def DBConfig.sample (url : Bytes) : DBConfig :=
  ⟨[], ascii "/data", ascii "*.db", true, false, some (ascii "meta"),
    some ⟨[], [], url⟩, []⟩

theorem exists_of_toOption (x : Except ConfigError DBConfig) (replica : Option ReplicaConfig)
    (h : x.toOption.map DBConfig.replica = some replica) :
    ∃ c, x = .ok c ∧ c.replica = replica := by
  cases x with
  | error err => cases h
  | ok c => exact ⟨c, rfl, Option.some.inj h⟩

/-- A file system replica. -/
theorem separated_iff_sample : ∃ c c',
    newDBFromDirectoryEntry .sample (.sample (ascii "file:///backup")) [] (ascii "a.db") = .ok c ∧
    newDBFromDirectoryEntry .sample (.sample (ascii "file:///backup")) [] (ascii "x/a.db") =
      .ok c' ∧
    (Separated c c' ↔
      Hierarchical .sample (DBConfig.sample (ascii "file:///backup")).replica ∧
        ∀ r ∈ (DBConfig.sample (ascii "file:///backup")).replicas, Hierarchical .sample r) := by
  obtain ⟨c, hc, -⟩ := exists_of_toOption
    (newDBFromDirectoryEntry .sample (.sample (ascii "file:///backup")) [] (ascii "a.db"))
    (some ⟨[], [], ascii "file:///backup/a.db"⟩) (by decide +kernel)
  obtain ⟨c', hc', -⟩ := exists_of_toOption
    (newDBFromDirectoryEntry .sample (.sample (ascii "file:///backup")) [] (ascii "x/a.db"))
    (some ⟨[], [], ascii "file:///backup/x/a.db"⟩) (by decide +kernel)
  have hp : Local (ascii "a.db") := by
    refine ⟨?_, ?_, ?_, ?_⟩ <;> decide +kernel
  have hq : Local (ascii "x/a.db") := by
    refine ⟨?_, ?_, ?_, ?_⟩ <;> decide +kernel
  exact ⟨c, c', hc, hc', separated_iff _ _ [] [] _ _ c c' hp hq (by decide +kernel) hc hc'⟩

/-- A URL without a slash behind its scheme stays as it is, so two databases share it. -/
theorem not_separated : ¬ ∀ (platform : Platform) (dbc : DBConfig) (dbPath dbPath' p q : Bytes)
    (c c' : DBConfig), Local p → Local q → p ≠ q →
      newDBFromDirectoryEntry platform dbc dbPath p = .ok c →
        newDBFromDirectoryEntry platform dbc dbPath' q = .ok c' → Separated c c' := by
  intro h
  obtain ⟨c, hc, hreplica⟩ := exists_of_toOption
    (newDBFromDirectoryEntry .sample (.sample (ascii "file:backup")) [] (ascii "a.db"))
    (some ⟨[], [], ascii "file:backup"⟩) (by decide +kernel)
  obtain ⟨c', hc', hreplica'⟩ := exists_of_toOption
    (newDBFromDirectoryEntry .sample (.sample (ascii "file:backup")) [] (ascii "b.db"))
    (some ⟨[], [], ascii "file:backup"⟩) (by decide +kernel)
  have hp : Local (ascii "a.db") := by
    refine ⟨?_, ?_, ?_, ?_⟩ <;> decide +kernel
  have hq : Local (ascii "b.db") := by
    refine ⟨?_, ?_, ?_, ?_⟩ <;> decide +kernel
  exact (h _ _ [] [] _ _ c c' hp hq (by decide +kernel) hc hc').replica _ hreplica _ hreplica' rfl

end Litestream
