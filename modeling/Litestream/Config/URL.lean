import Litestream.Lib.Percent
import Litestream.Lib.SlashPath

/-!
# URLs

`URL.parse` reads a URL, and `URL.string` writes one.  Without an opaque part the text of a URL
determines the path, if the path has one slash at its start (`URL.path_of_string`).  The text of a
URL with an opaque part does not have the path at all.

The reading of the user and the host of an authority is a parameter.
-/

namespace Litestream

open Bytes SlashPath Percent

/-! ## Escaping -/

/-- The parts of a URL that are escaped in their own ways. -/
inductive URLEncoding where
  | path
  | host
  | userPassword
  | fragment
deriving DecidableEq, Repr

def isAlphanum (b : UInt8) : Bool :=
  (0x61 ≤ b.toNat && b.toNat ≤ 0x7a) || (0x41 ≤ b.toNat && b.toNat ≤ 0x5a) ||
    (0x30 ≤ b.toNat && b.toNat ≤ 0x39)

def shouldEscape (mode : URLEncoding) (b : UInt8) : Bool :=
  if isAlphanum b then false
  else if mode = .host ∧ b ∈ ascii "!$&'()*+,;=:[]<>\"" then false
  else if b ∈ ascii "-_.~" then false
  else if b ∈ ascii "$&+,/:;=?@" then
    match mode with
    | .path => b ∈ ascii "?"
    | .userPassword => b ∈ ascii "@/?:"
    | .fragment => false
    | .host => true
  else if mode = .fragment ∧ b ∈ ascii "!()*" then false
  else true

/-- Every byte is one that an encoding may have, or is escaped. -/
def validEncoded (mode : URLEncoding) (p : Bytes) : Bool :=
  p.all fun b => b ∈ ascii "!$&'()*+,;=:@[]%" || !shouldEscape mode b

/-! ## URLs -/

structure Userinfo where
  username : Bytes
  password : Option Bytes
deriving DecidableEq, Repr

structure URL where
  scheme : Bytes
  /-- What stands behind the scheme, if it does not start with a slash. -/
  opaquePart : Bytes
  user : Option Userinfo
  host : Bytes
  path : Bytes
  /-- The path as it was written, if it is not escaped in the usual way. -/
  rawPath : Bytes
  omitHost : Bool
  forceQuery : Bool
  rawQuery : Bytes
  fragment : Bytes
  rawFragment : Bytes
deriving DecidableEq, Repr

inductive URLError where
  | controlCharacter
  | missingScheme
  | colonInFirstSegment
  | escape
  | authority (message : String)
deriving DecidableEq, Repr

namespace URL

/-- A URL without parts. -/
def empty : URL := ⟨[], [], none, [], [], [], false, false, [], [], []⟩

/-- The part as it was written, if that is an encoding of it, else its usual encoding. -/
def escaped (mode : URLEncoding) (part raw : Bytes) : Bytes :=
  if raw ≠ [] ∧ validEncoded mode raw ∧ unescape raw = some part then raw
  else escape (shouldEscape mode) part

def escapedPath (u : URL) : Bytes :=
  if u.rawPath ≠ [] ∧ validEncoded .path u.rawPath ∧ unescape u.rawPath = some u.path then
    u.rawPath
  else if u.path = ascii "*" then ascii "*"
  else escape (shouldEscape .path) u.path

def userinfoString (user : Userinfo) : Bytes :=
  escape (shouldEscape .userPassword) user.username ++
    match user.password with
    | none => []
    | some password => ascii ":" ++ escape (shouldEscape .userPassword) password

/-- The scheme with a colon. -/
def schemeString (u : URL) : Bytes := if u.scheme = [] then [] else u.scheme ++ ascii ":"

/-- The slashes, the user and the host. -/
def authorityString (u : URL) : Bytes :=
  if u.scheme ≠ [] ∨ u.host ≠ [] ∨ u.user ≠ none then
    if u.omitHost ∧ u.host = [] ∧ u.user = none then []
    else
      (if u.host ≠ [] ∨ u.path ≠ [] ∨ u.user ≠ none then ascii "//" else []) ++
        (match u.user with
        | none => []
        | some user => userinfoString user ++ ascii "@") ++
        (if u.host = [] then [] else escape (shouldEscape .host) u.host)
  else []

/-- What separates a path from what stands before it. -/
def separator (u : URL) (front : Bytes) : Bytes :=
  if u.escapedPath ≠ [] ∧ rooted u.escapedPath = false ∧ u.host ≠ [] then [slash]
  else if front = [] ∧ (0x3a ∈ u.escapedPath.takeWhile (· ≠ slash)) then ascii "./"
  else []

/-- The query and the fragment. -/
def tailString (u : URL) : Bytes :=
  (if u.forceQuery ∨ u.rawQuery ≠ [] then ascii "?" ++ u.rawQuery else []) ++
    (if u.fragment ≠ [] then ascii "#" ++ escaped .fragment u.fragment u.rawFragment else [])

/-- The text of a URL. -/
def string (u : URL) : Bytes :=
  if u.opaquePart ≠ [] then u.schemeString ++ u.opaquePart ++ u.tailString
  else
    u.schemeString ++ u.authorityString ++
      (u.separator (u.schemeString ++ u.authorityString) ++ u.escapedPath) ++ u.tailString

/-! ## Parsing -/

/-- Reads a scheme up to a colon. -/
def getScheme (rawURL : Bytes) : Except URLError (Bytes × Bytes) :=
  let scheme := rawURL.takeWhile fun b => isAlphanum b || b ∈ ascii "+-."
  match rawURL.drop scheme.length with
  | [] => .ok ([], rawURL)
  | b :: rest =>
      match scheme with
      | [] => if b = 0x3a then .error .missingScheme else .ok ([], rawURL)
      | first :: _ =>
          if b = 0x3a ∧ isAlphanum first ∧ ¬ (0x30 ≤ first.toNat ∧ first.toNat ≤ 0x39) then
            .ok (scheme, rest)
          else .ok ([], rawURL)

def toLower (b : UInt8) : UInt8 := if 0x41 ≤ b.toNat ∧ b.toNat ≤ 0x5a then b + 0x20 else b

/-- What stands before and behind the first separator. -/
def cut (p : Bytes) (sep : UInt8) : Bytes × Bytes :=
  (p.takeWhile (· ≠ sep), (p.dropWhile (· ≠ sep)).tail)

/-- Sets the path from its encoding. -/
def setPath (u : URL) (p : Bytes) : Except URLError URL :=
  match unescape p with
  | none => .error .escape
  | some path =>
      .ok { u with path := path, rawPath := if p = escape (shouldEscape .path) path then [] else p }

def setFragment (u : URL) (p : Bytes) : Except URLError URL :=
  match unescape p with
  | none => .error .escape
  | some fragment =>
      .ok { u with fragment := fragment, rawFragment :=
        if p = escape (shouldEscape .fragment) fragment then [] else p }

variable (parseAuthority : Bytes → Except URLError (Option Userinfo × Bytes))

/-- Reads the authority, if there is one, and the path. -/
def parseHierarchy (u : URL) (rest : Bytes) : Except URLError URL :=
  if (u.scheme ≠ [] ∨ ¬ ascii "///" <+: rest) ∧ ascii "//" <+: rest then
    let authority := (rest.drop 2).takeWhile (· ≠ slash)
    match parseAuthority authority with
    | .error err => .error err
    | .ok (user, host) =>
        setPath { u with user := user, host := host } (rest.drop (2 + authority.length))
  else if u.scheme ≠ [] ∧ rooted rest then setPath { u with omitHost := true } rest
  else setPath u rest

/-- Reads a URL without a fragment. -/
def parseRest (rawURL : Bytes) : Except URLError URL :=
  if rawURL.any fun b => b.toNat < 0x20 || b = 0x7f then .error .controlCharacter
  else if rawURL = ascii "*" then .ok { empty with path := ascii "*" }
  else
    match getScheme rawURL with
    | .error err => .error err
    | .ok (scheme, rest) =>
        let u := { empty with scheme := scheme.map toLower }
        let (u, rest) :=
          if rest.getLast? = some 0x3f ∧ rest.count 0x3f = 1 then
            ({ u with forceQuery := true }, rest.dropLast)
          else ({ u with rawQuery := (cut rest 0x3f).2 }, (cut rest 0x3f).1)
        if rooted rest then parseHierarchy parseAuthority u rest
        else if u.scheme ≠ [] then .ok { u with opaquePart := rest }
        else if 0x3a ∈ rest.takeWhile (· ≠ slash) then .error .colonInFirstSegment
        else parseHierarchy parseAuthority u rest

/-- Reads a URL. -/
def parse (rawURL : Bytes) : Except URLError URL :=
  let (rest, fragment) := cut rawURL 0x23
  match parseRest parseAuthority rest with
  | .error err => .error err
  | .ok u => if fragment = [] then .ok u else setFragment u fragment

/-! ## The path in the text -/

variable {u : URL} {p q : Bytes}

theorem shouldEscape_percent (mode : URLEncoding) : shouldEscape mode percent = true := by
  cases mode <;> decide

theorem unescape_escapedPath (u : URL) : unescape u.escapedPath = some u.path := by
  rw [escapedPath]
  split
  next h => exact h.2.2
  next h =>
    split
    next hstar =>
      rw [hstar]
      decide
    next hstar => exact unescape_escape (shouldEscape_percent .path) u.path

/-- What the text of a URL has where the path is: the path, or the path behind a slash or a dot
and a slash. -/
theorem unescape_separator (u : URL) (front : Bytes) :
    ∃ sep, (sep = [] ∨ sep = [slash] ∨ sep = ascii "./") ∧
      unescape (u.separator front ++ u.escapedPath) = some (sep ++ u.path) := by
  refine ⟨u.separator front, ?_, ?_⟩
  · rw [separator]
    split
    · exact Or.inr (Or.inl rfl)
    split
    · exact Or.inr (Or.inr rfl)
    · exact Or.inl rfl
  · rw [unescape_append, unescape_escapedPath, Option.map_some]
    rw [separator]
    split
    · decide
    split <;> decide

/-- A path that starts with one slash is determined by what the text has in its place. -/
theorem path_of_separator {sep sep' : Bytes} (hp : rooted p = false) (hq : rooted q = false)
    (hsep : sep = [] ∨ sep = [slash] ∨ sep = ascii "./")
    (hsep' : sep' = [] ∨ sep' = [slash] ∨ sep' = ascii "./")
    (h : sep ++ slash :: p = sep' ++ slash :: q) : p = q := by
  have hdot : ascii "./" = [0x2e, slash] := rfl
  have hne : ∀ {r s : Bytes}, rooted r = false → r ≠ slash :: s := by
    rintro r s hr rfl
    simp [rooted] at hr
  rw [hdot] at hsep hsep'
  rcases hsep with rfl | rfl | rfl <;> rcases hsep' with rfl | rfl | rfl <;>
    simp only [List.nil_append, List.cons_append, List.cons.injEq, true_and] at h
  · exact h
  · exact absurd h (hne hp)
  · exact absurd h.1 (by decide)
  · exact absurd h.symm (hne hq)
  · exact h
  · exact absurd h.1 (by decide)
  · exact absurd h.1 (by decide)
  · exact absurd h.1 (by decide)
  · exact h

/-- Two URLs that differ in the path only have different texts. -/
theorem path_of_string (hpart : u.opaquePart = []) (hp : rooted p = false)
    (hq : rooted q = false)
    (h : ({ u with path := slash :: p } : URL).string =
      ({ u with path := slash :: q } : URL).string) : p = q := by
  have hstring : ∀ p : Bytes, ({ u with path := slash :: p } : URL).string =
      u.schemeString ++ ({ u with path := [slash] } : URL).authorityString ++
        (({ u with path := slash :: p } : URL).separator (u.schemeString ++
          ({ u with path := [slash] } : URL).authorityString) ++
            ({ u with path := slash :: p } : URL).escapedPath) ++ u.tailString := by
    intro p
    rw [string, if_neg (not_not.mpr hpart)]
    simp only [authorityString, ne_eq, reduceCtorEq, not_false_eq_true, true_or, or_true]
    rfl
  rw [hstring, hstring] at h
  have hmiddle := List.append_cancel_left (List.append_cancel_right h)
  obtain ⟨sep, hsep, hleft⟩ := unescape_separator { u with path := slash :: p }
    (u.schemeString ++ ({ u with path := [slash] } : URL).authorityString)
  obtain ⟨sep', hsep', hright⟩ := unescape_separator { u with path := slash :: q }
    (u.schemeString ++ ({ u with path := [slash] } : URL).authorityString)
  rw [hmiddle, hright, Option.some.injEq] at hleft
  exact path_of_separator hp hq hsep hsep' hleft.symm

/-- The text of a URL with an opaque part does not depend on the path. -/
theorem string_of_opaquePart (hpart : u.opaquePart ≠ []) (p : Bytes) :
    ({ u with path := p } : URL).string = u.string := by
  rw [string, if_pos hpart, string, if_pos hpart]
  rfl

theorem string_ne_nil (h : u.path ≠ []) : u.string ≠ [] := by
  intro hnil
  rw [string] at hnil
  split at hnil
  next hpart =>
    simp only [List.append_eq_nil_iff] at hnil
    exact hpart hnil.1.2
  · simp only [List.append_eq_nil_iff] at hnil
    have hpath := unescape_escapedPath u
    rw [hnil.1.2.2] at hpath
    exact h (Option.some.inj hpath).symm

end URL

end Litestream
