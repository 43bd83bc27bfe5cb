import TeeProof.Statement

/-! The target of an HTTP/2 request: host and path are joined into one text, and the grammar of
URIs decides where they part. -/
namespace TeeProof.Enclave

/-- A parsed URI, its fragment dropped. -/
structure Uri where
  authority : Str
  pathAndQuery : Str

/-- What ends an authority. -/
def endsAuthority (c : Char) : Bool := c == '/' || c == '?' || c == '#'

def authorityOf (s : Str) : Str := s.takeWhile fun c => !endsAuthority c
def pathAndQueryOf (s : Str) : Str := (s.dropWhile fun c => !endsAuthority c).takeWhile (· ≠ '#')

/-- The `http` crate: which texts it takes for a URI, and how it splits them after the scheme. -/
structure HttpCrate where
  parseUri : Str → Option Uri
  splits : ∀ s uri, parseUri ("https://".toList ++ s) = some uri →
    uri.authority = authorityOf s ∧ uri.pathAndQuery = pathAndQueryOf s

/-- `PathAndQuery::as_str`, the `:path` of a request: an empty path is written as a slash. -/
def Uri.path (uri : Uri) : Str := if uri.pathAndQuery.isEmpty then ['/'] else uri.pathAndQuery

/-- `format!("https://{host}{path}").parse()` in `execute`. -/
def requestUri (http : HttpCrate) (host path : Str) : Option Uri := http.parseUri ("https://".toList ++ (host ++ path))

/-- Labels of letters, digits and hyphens, parted by dots. -/
def isDnsName (host : Str) : Bool :=
  (Str.split '.' host).all fun label => !label.isEmpty && label.all fun c => c.isAlphanum || c == '-'

/-- The request goes to the signed host and path. -/
structure SignedTarget (host path : Str) (uri : Uri) : Prop where
  sentAuthority : uri.authority = host
  sentPath : uri.path = path
  signedPath : pathNoQuery uri.path = pathNoQuery path

theorem not_endsAuthority {host : Str} (dns : isDnsName host = true) : ∀ c ∈ host, endsAuthority c = false := by
  have outside : ∀ c, endsAuthority c = true → (c.isAlphanum || c == '-') = false ∧ c ≠ '.' := by
    intro c ends
    simp only [endsAuthority, Bool.or_eq_true, beq_iff_eq] at ends
    rcases ends with (rfl | rfl) | rfl <;> decide
  intro c member
  by_contra ends
  rw [Bool.not_eq_false] at ends
  obtain ⟨refused, dot⟩ := outside c ends
  obtain ⟨label, inside, char⟩ := (Lines.mem_piece '.' host c member).resolve_left dot
  have valid := List.all_eq_true.mp dns label inside
  simp only [Bool.and_eq_true, List.all_eq_true] at valid
  rw [valid.2 c char] at refused
  cases refused

theorem authorityOf_append {host : Str} (plain : ∀ c ∈ host, endsAuthority c = false) (path : Str) :
    authorityOf (host ++ path) = host ++ authorityOf path ∧ pathAndQueryOf (host ++ path) = pathAndQueryOf path := by
  have kept : ∀ c ∈ host, (!endsAuthority c) = true := fun c member => by rw [plain c member]; rfl
  constructor
  · exact List.takeWhile_append_of_pos kept
  · rw [pathAndQueryOf, List.dropWhile_append_of_pos kept]
    rfl

/-- A path that an authority does not run into. -/
theorem authorityOf_eq_nil {path : Str} :
    authorityOf path = [] ↔ path = [] ∨ ∃ c rest, path = c :: rest ∧ endsAuthority c = true := by
  cases path with
  | nil => simp [authorityOf]
  | cons c rest => simp [authorityOf, List.takeWhile_cons]

theorem pathAndQueryOf_cons {c : Char} (rest : Str) (ends : endsAuthority c = true) :
    pathAndQueryOf (c :: rest) = (c :: rest).takeWhile (· ≠ '#') := by
  rw [pathAndQueryOf, List.dropWhile_cons_of_neg]
  simp [ends]

/-- A crate that takes every text after the scheme. -/
def HttpCrate.sample : HttpCrate where
  parseUri text := (Str.stripPrefix "https://".toList text).map fun s => ⟨authorityOf s, pathAndQueryOf s⟩
  splits s uri parsed := by
    have strip : Str.stripPrefix "https://".toList ("https://".toList ++ s) = some s := by
      rw [Str.stripPrefix, if_pos (by simp), List.drop_left]
    rw [strip] at parsed
    cases parsed
    exact ⟨rfl, rfl⟩

end TeeProof.Enclave
