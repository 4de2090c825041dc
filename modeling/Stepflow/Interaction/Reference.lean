import Stepflow.Failure
import Stepflow.Text.Digits
import Stepflow.Text.HostName
import Stepflow.Text.Parts
import Stepflow.Text.Quoted
import Stepflow.Text.Utf8

/-!
# Stepflow.Interaction.Reference — what a text says about where a resource is

A reference may have a scheme, an authority, a path, a query and a fragment.  One with a scheme and
a host names a resource of any server; every other one names a resource below the root of the
server at hand, whatever else it has.  Dot segments are resolved wherever the path belongs to a
scheme or a server.  `Reference.target` is what a request for the resource asks for.
-/

namespace Stepflow.Interaction

/-! ### Escapes -/

/-- The bytes that characters with escapes stand for: a percent sign and two hexadecimal digits are
one byte. -/
def escapedBytes : List Char → List UInt8
  | '%' :: a :: b :: rest =>
    match Text.hexValue? a, Text.hexValue? b with
    | some x, some y => UInt8.ofNat (x * 16 + y) :: escapedBytes rest
    | _, _ => Text.encodeUtf8 ['%'] ++ escapedBytes (a :: b :: rest)
  | c :: rest => Text.encodeUtf8 [c] ++ escapedBytes rest
  | [] => []

/-- Characters with their escapes resolved. -/
def unescape (cs : List Char) : String :=
  String.ofList (Text.decodeUtf8Lenient (escapedBytes cs))

/-- A byte as an escape. -/
def escape (b : UInt8) : List Char := '%' :: (Text.hexadecimal 2 b.toNat).map Char.toUpper

/-- A query with escapes for the characters that cannot stand in it. -/
def escapeQuery (cs : List Char) : List Char :=
  cs.flatMap (fun c =>
    if 0x20 < c.toNat && c.toNat < 0x7f && c != '"' && c != '#' && c != '<' && c != '>' then [c]
    else (Text.encodeUtf8 [c]).flatMap escape)

/-! ### Faults -/

/-- What keeps a text from being a reference. -/
inductive Fault where
  | tooLong
  | control (c : Char) (position : Nat)
  | port (text : List Char)
  | addressOfFour (host : List Char)
  | addressOfEight (host : List Char)
  | name (host : List Char)
  | doubleSlash
  | colon

/-- The failure that tells a fault. -/
def Fault.failure (fault : Fault) : Failure :=
  let shown := fun cs => Text.quoted (String.ofList cs)
  .outside .reference (match fault with
    | .tooLong => "URL too long"
    | .control c position =>
      "Invalid non-printable ASCII character in URL, " ++ shown [c] ++ " at position " ++
        toString position ++ "."
    | .port cs => "Invalid port: " ++ shown cs
    | .addressOfFour host => "Invalid IPv4 address: " ++ shown host
    | .addressOfEight host => "Invalid IPv6 address: " ++ shown host
    | .name host => "Invalid IDNA hostname: " ++ shown host
    | .doubleSlash => "Relative URLs cannot have a path starting with '//'"
    | .colon => "Relative URLs cannot have a path starting with ':'")

/-! ### Hosts -/

mutual
/-- Whether digits begin here, as the first of `groups + 1` groups with one character between
them. -/
def beginsDigits (groups : Nat) : List Char → Bool
  | [] => false
  | c :: rest => c.isDigit && goesOn groups rest

/-- Whether a group of digits that has begun goes on here to the end of the last group. -/
def goesOn (groups : Nat) : List Char → Bool
  | [] => groups == 0
  | c :: rest =>
    (c.isDigit && goesOn groups rest) || (groups != 0 && beginsDigits (groups - 1) rest)
end

/-- Whether a part of an address of four numbers is one: up to 255, without zeros in front. -/
def isOctet (part : List Char) : Bool :=
  part.all Char.isDigit && (part.length == 1 ||
    ((part.length == 2 || part.length == 3) && part.head? != some '0')) &&
    (Text.readNat? 10 part).any (· < 256)

/-- Whether a host is an address of four numbers. -/
def isAddressOfFour (host : List Char) : Bool :=
  let parts := Text.split '.' host
  parts.length == 4 && parts.all isOctet

/-- Whether a part of an address of eight groups is one. -/
def isGroup (part : List Char) : Bool :=
  1 ≤ part.length && part.length ≤ 4 && part.all (fun c => (Text.hexValue? c).isSome)

/-- Whether parts between colons are an address of eight groups: all are there, or fewer with one
gap between them. -/
def isAddressOfParts (parts : List (List Char)) : Bool :=
  let inner := (parts.drop 1).dropLast
  match inner.filter List.isEmpty with
  | [] => parts.length == 8 && parts.all isGroup
  | [_] =>
    let before := parts.take (1 + (inner.takeWhile (!·.isEmpty)).length)
    let after := parts.drop (before.length + 1)
    let before := if before == [[]] then [] else before
    let after := if after == [[]] then [] else after
    before.length + after.length ≤ 7 && before.all isGroup && after.all isGroup
  | _ => false

/-- Whether a text is an address of eight groups; the last two may be an address of four numbers,
and a zone may follow. -/
def isAddressOfEight (cs : List Char) : Bool :=
  let (address, zone) := Text.cut '%' cs
  let parts := Text.split ':' address
  let last := parts.getLastD []
  let parts := if last.contains '.' && isAddressOfFour last then parts.dropLast ++ [['0'], ['0']]
    else parts
  zone.all (fun z => !z.isEmpty && !z.contains '%') && 3 ≤ (Text.split ':' address).length &&
    parts.length ≤ 9 && isAddressOfParts parts

/-- Whether a host is in brackets. -/
def isBracketed (host : List Char) : Bool :=
  host.head? == some '[' && host.getLast? == some ']' && 2 ≤ host.length

/-- Check a host: what has the form of an address must be one, and beyond ASCII only names are
taken. -/
def checkHost (host : List Char) : Except Fault Unit :=
  if beginsDigits 3 host then
    if isAddressOfFour host then .ok () else .error (.addressOfFour host)
  else if isBracketed host then
    if isAddressOfEight ((host.drop 1).dropLast) then .ok () else .error (.addressOfEight host)
  else if host.all (·.toNat < 128) || Text.isHostName host then .ok ()
  else .error (.name host)

/-! ### Parts -/

/-- A reference in its parts; a fragment does not count. -/
structure Reference where
  scheme : List Char
  user : List Char
  host : List Char
  port : Option Int
  path : List Char
  query : Option (List Char)

/-- A letter of ASCII. -/
def isLetter (c : Char) : Bool := c.isAlpha

/-- Whether a character can stand in a scheme after its first letter. -/
def isSchemeChar (c : Char) : Bool := c.isAlphanum || c == '+' || c == '.' || c == '-'

/-- The scheme, which may be empty, and what follows its colon; without a colon there is none. -/
def splitScheme (cs : List Char) : List Char × List Char :=
  let name := cs.takeWhile isSchemeChar
  match cs.dropWhile isSchemeChar with
  | ':' :: rest =>
    if (name.head?).all isLetter then (name, rest) else ([], cs)
  | _ => ([], cs)

/-- The authority after two slashes, and what follows it. -/
def splitAuthority : List Char → List Char × List Char
  | '/' :: '/' :: rest =>
    let stays := fun (c : Char) => c != '/' && c != '?' && c != '#'
    (rest.takeWhile stays, rest.dropWhile stays)
  | cs => ([], cs)

/-- The part before the last occurrence of a character and the part after it; without one, nothing
and everything. -/
def cutLast (sep : Char) (cs : List Char) : List Char × List Char :=
  let after := (cs.reverse.takeWhile (· != sep)).reverse
  (cs.take (cs.length - after.length - 1), after)

/-- The host of an authority without its user, and the text of the port. -/
def splitHost (cs : List Char) : List Char × List Char :=
  let (inside, rest) := cutLast ']' cs
  let (host, rest) :=
    if cs.head? == some '[' && cs.contains ']' then (inside ++ [']'], rest)
    else (cs.takeWhile (· != ':'), cs.dropWhile (· != ':'))
  match rest with
  | ':' :: port => (host, port)
  | port => (host, port)

/-- The port that a scheme has unless another is named. -/
def usualPort? (scheme : List Char) : Option Int :=
  match String.ofList scheme with
  | "ftp" => some 21
  | "http" | "ws" => some 80
  | "https" | "wss" => some 443
  | _ => none

/-- Read a port; the usual one of the scheme counts as none. -/
def readPort (scheme text : List Char) : Except Fault (Option Int) :=
  if text.isEmpty then .ok none
  else match Text.readWhole? 10 text with
    | some n => .ok (if usualPort? scheme = some n then none else some n)
    | none => .error (.port text)

/-! ### Paths -/

/-- Take one segment into those that are done: a single dot is dropped, two dots drop the segment
before them, but never the root. -/
def takeSegment (done : List (List Char)) (s : List Char) : List (List Char) :=
  if s = ['.'] then done
  else if s = ['.', '.'] then (if done = [] ∨ done = [[]] then done else done.dropLast)
  else done ++ [s]

/-- A path with its dot segments resolved. -/
def resolveDots (path : List Char) : List Char :=
  let segments := Text.split '/' path
  if segments.contains ['.'] || segments.contains ['.', '.'] then
    ['/'].intercalate (segments.foldl takeSegment [])
  else path

/-! ### Reading -/

/-- The greatest length of a reference. -/
def lengthLimit : Nat := 65536

/-- Whether a character is a control of ASCII. -/
def isControl (c : Char) : Bool := c.toNat < 0x20 || c.toNat == 0x7f

/-- Check the characters of a reference. -/
def checkChars (cs : List Char) : Except Fault Unit :=
  if lengthLimit < cs.length then .error .tooLong
  else match cs.find? isControl with
    | some c => .error (.control c (cs.takeWhile (!isControl ·)).length)
    | none => .ok ()

/-- Check a path that belongs neither to a scheme nor to a server. -/
def checkLonePath : List Char → Except Fault Unit
  | '/' :: '/' :: _ => .error .doubleSlash
  | ':' :: _ => .error .colon
  | _ => .ok ()

namespace Reference

/-- Read a reference. -/
def read (cs : List Char) : Except Fault Reference := do
  checkChars cs
  let (scheme, rest) := splitScheme cs
  let (authority, rest) := splitAuthority rest
  let (resource, _) := Text.cut '#' rest
  let (path, query) := Text.cut '?' resource
  let (user, located) := cutLast '@' authority
  let (host, port) := splitHost located
  checkHost host
  let port ← readPort scheme port
  let owned := !scheme.isEmpty || !user.isEmpty || !host.isEmpty || port.isSome
  if !owned then checkLonePath path
  return ⟨scheme, user, host, port, if owned then resolveDots path else path, query⟩

/-- Whether a reference names its server. -/
def isAbsolute (r : Reference) : Bool := !r.scheme.isEmpty && !r.host.isEmpty

/-- The path of the resource below the root of its server, with escapes. -/
def resourcePath (r : Reference) : List Char :=
  if r.isAbsolute then r.path else resolveDots ('/' :: r.path.dropWhile (· == '/'))

end Reference

/-- What a request asks its server for. -/
structure Target where
  path : String
  query : Option (List Char)

/-- The target of a text that is a reference. -/
def Target.ofReference (text : String) : Except Failure Target :=
  match Reference.read text.toList with
  | .error fault => .error fault.failure
  | .ok r =>
    let path := r.resourcePath
    .ok ⟨if path.isEmpty then "/" else unescape path, r.query⟩

end Stepflow.Interaction
