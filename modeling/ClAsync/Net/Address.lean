/-
# IP addresses as texts

`Display for IpAddress` writes an address and `try_from` reads one. An address
of version 6 is written with eight groups of hexadecimal digits, the longest
run of groups that are zero as `::` (`compress_v6`), or, if it maps an address
of version 4, as `::ffff:` and that address.

To be read, a text is first classified by its colons and dots (`is_v4`,
`is_v6`); what is neither is a host name, and the resolver is asked for it.
The resolver is not in the source: it is the parameter `getaddrinfo`.

Key definitions: `IpAddress.toString`, `v6`, `tryFrom`.
-/
import ClAsync.Lib.Text

namespace ClAsync
namespace Net

open Text

/-! ### Errors -/

/-- `IpV4ParseError`: not four parts, or one that is no byte. -/
inductive IpV4ParseError
  | invalidV4Format (addr : Str)
  | invalidV4Value (addr : Str)
  deriving DecidableEq, Repr

/-- `IpV6CompressError`. -/
inductive IpV6CompressError
  | invalidUncompressedV6Format (addr : Str)
  | invalidUncompressedV6Value (addr : Str)
  deriving DecidableEq, Repr

/-- `IpV6UncompressError`. -/
inductive IpV6UncompressError
  | invalidCompressedV6Format (addr : Str)
  | invalidCompressedV6Value (addr : Str)
  deriving DecidableEq, Repr

/-- `V4MappedV6Error`. -/
inductive V4MappedV6Error
  | invalidMappedV6Format (addr : Str)
  | v4ParseError (e : IpV4ParseError)
  deriving DecidableEq, Repr

/-- `HostnameResolutionError`: no C string, or no answer. -/
inductive HostnameResolutionError
  | invalidCString (hostname : Str)
  | resolutionFailure (hostname message : Str) (code : ℤ)
  deriving DecidableEq, Repr

/-- `IpParseError`, with the error of the format the text was taken for. -/
inductive IpParseError
  | noAddressFound (ip : Str)
  | ipV4ParseError (e : IpV4ParseError)
  | ipV6UncompressError (e : IpV6UncompressError)
  | v4MappedV6Error (e : V4MappedV6Error)
  | hostnameResolutionError (e : HostnameResolutionError)
  deriving DecidableEq, Repr

/-! ### Addresses -/

/-- Byte data is stored as big-endian. -/
inductive IpAddress
  | v4 (addr : Vector UInt8 4)
  | v6 (addr : Vector UInt8 16)
  deriving DecidableEq, Repr

/-- `u16::from_be_bytes` of the bytes `2 * i` and `2 * i + 1`. -/
def group (bytes : Vector UInt8 16) (i : Fin 8) : ℕ := bytes[2 * i.val].toNat * 256 + bytes[2 * i.val + 1].toNat

/-- The eight groups, in order. -/
def groups (bytes : Vector UInt8 16) : List ℕ := List.ofFn (group bytes)

/-- Each group is written in two bytes. -/
def ofGroups (gs : List ℕ) : Vector UInt8 16 :=
  Vector.ofFn fun i => UInt8.ofNat (if i.val % 2 = 0 then gs.getD (i.val / 2) 0 / 256 else gs.getD (i.val / 2) 0)

/-- The bytes of the numbers, which are below 256. -/
def ofOctets (os : List ℕ) : Vector UInt8 4 := Vector.ofFn fun i => UInt8.ofNat (os.getD i 0)

/-- The address of version 6 that maps one of version 4. -/
def mapped (bytes : Vector UInt8 4) : Vector UInt8 16 :=
  #v[0, 0, 0, 0, 0, 0, 0, 0, 0, 0, 0xff, 0xff, bytes[0], bytes[1], bytes[2], bytes[3]]

/-! ### Parsing -/

/-- The loops that read one number from each part. -/
def parseParts {ε : Type} (max radix : ℕ) (error : ε) : List Str → Except ε (List ℕ)
  | [] => .ok []
  | part :: parts =>
    match fromStrRadix max radix part with
    | some n => (parseParts max radix error parts).map (n :: ·)
    | none => .error error

/-- `v4_bytes_from_str`. -/
def v4BytesFromStr (addr : Str) : Except IpV4ParseError (Vector UInt8 4) :=
  let parts := addr.splitOn '.'
  if parts.length ≠ 4 then .error (.invalidV4Format addr)
  else (parseParts 255 10 (.invalidV4Value addr) parts).map ofOctets

/-- `v4_from_str`. -/
def v4FromStr (addr : Str) : Except IpV4ParseError IpAddress := (v4BytesFromStr addr).map .v4

/-- `is_compressed_v6`: a `::` and at most seven colons. -/
def isCompressedV6 (addr : Str) : Bool := contains [':', ':'] addr && addr.count ':' ≤ 7

/-- The text before an address of version 4 that is mapped. -/
def mappedPrefix : Str := "::ffff:".toList

/-- `is_mapped_v6`. -/
def isMappedV6 (addr : Str) : Bool := mappedPrefix.isPrefixOf addr && addr.contains '.'

/-- `is_uncompressed_v6`. -/
def isUncompressedV6 (addr : Str) : Bool := addr.count ':' == 7 && !contains [':', ':'] addr

/-- `is_v6`. -/
def isV6 (addr : Str) : Bool := isCompressedV6 addr || isUncompressedV6 addr || isMappedV6 addr

/-- `is_v4`: three dots and no colon. -/
def isV4 (addr : Str) : Bool := addr.count '.' == 3 && !addr.contains ':'

/-- `split_once`: at the first place where the pattern stands. -/
def splitOnce (pattern : Str) : Str → Option (Str × Str)
  | [] => if pattern.isPrefixOf [] then some ([], []) else none
  | c :: cs =>
    if pattern.isPrefixOf (c :: cs) then some ([], (c :: cs).drop pattern.length)
    else (splitOnce pattern cs).map fun parts => (c :: parts.1, parts.2)

/-- `parse_mapped_v6`. -/
def parseMappedV6 (addr : Str) : Except V4MappedV6Error IpAddress :=
  match splitOnce mappedPrefix addr with
  | none => .error (.invalidMappedV6Format addr)
  | some (_, v4Str) => ((v4BytesFromStr v4Str).map fun bytes => .v6 (mapped bytes)).mapError .v4ParseError

/-- The length in bytes. -/
def len (s : Str) : ℕ := (s.map Char.utf8Size).sum

/-- `while part.len() < 4`: a zero is put in front. -/
def padded (part : Str) : Str := List.replicate (4 - len part) '0' ++ part

/-- The loop over the parts from index `i`: each is padded, and the index of
the empty one is returned. -/
def padParts (addr : Str) (i : ℕ) (doubleColonIndex : Option ℕ) :
    List Str → Except IpV6UncompressError (Option ℕ × List Str)
  | [] => .ok (doubleColonIndex, [])
  | part :: parts =>
    if len part > 4 then .error (.invalidCompressedV6Value addr)
    else if part = [] then
      if doubleColonIndex = none then
        (padParts addr (i + 1) (some i) parts).map fun r => (r.1, part :: r.2)
      else .error (.invalidCompressedV6Value addr)
    else (padParts addr (i + 1) doubleColonIndex parts).map fun r => (r.1, padded part :: r.2)

/-- A group of zeroes. -/
def zeroes : Str := ['0', '0', '0', '0']

/-- `while parts.len() < 8`: `n` times, zeroes are inserted at `i`. -/
def insertZeroes (i : ℕ) : ℕ → List Str → List Str
  | 0, parts => parts
  | n + 1, parts => insertZeroes i n (parts.insertIdx i zeroes)

/-- A text that starts with `::` has one empty part too many. -/
def dropEmptyFirst (parts : List Str) : List Str := if parts.head? = some [] then parts.tail else parts

/-- A text that ends with `::` has one, too. -/
def dropEmptyLast (parts : List Str) : List Str := if parts.getLast? = some [] then parts.dropLast else parts

/-- `uncompress_v6`: every group with four digits, and the missing ones written out. -/
def uncompressV6 (addr : Str) : Except IpV6UncompressError Str :=
  let parts := (addr.splitOn ':').map trim
  if parts.length > 9 ∨ parts.length < 3 then .error (.invalidCompressedV6Format addr)
  else
    match padParts addr 0 none (dropEmptyLast (dropEmptyFirst parts)) with
    | .error e => .error e
    | .ok (none, parts) =>
      if parts.length ≠ 8 then .error (.invalidCompressedV6Format addr) else .ok ([':'].intercalate parts)
    | .ok (some doubleColonIndex, parts) =>
      let parts := parts.set doubleColonIndex zeroes
      .ok ([':'].intercalate (insertZeroes doubleColonIndex (8 - parts.length) parts))

/-- `uncompressed_v6_as_bytes`. -/
def uncompressedV6AsBytes (addr : Str) : Except IpV6UncompressError (Vector UInt8 16) :=
  let parts := addr.splitOn ':'
  if parts.length ≠ 8 then .error (.invalidCompressedV6Format addr)
  else (parseParts 65535 16 (.invalidCompressedV6Value addr) parts).map ofGroups

/-- `v6` of a text that is not in brackets. -/
def v6Plain (addr : Str) : Except IpParseError IpAddress :=
  if isMappedV6 addr then (parseMappedV6 addr).mapError .v4MappedV6Error
  else
    let uncompressed := if isCompressedV6 addr then uncompressV6 addr else .ok addr
    ((uncompressed.bind uncompressedV6AsBytes).map .v6).mapError .ipV6UncompressError

/-- Both compressed and uncompressed formats are accepted. -/
def v6 (addr : Str) : Except IpParseError IpAddress :=
  if addr.head? = some '[' ∧ addr.getLast? = some ']' then v6 addr.tail.dropLast else v6Plain addr
termination_by addr.length
decreasing_by
  rename_i h
  cases addr with
  | nil => cases h.1
  | cons c cs =>
    rw [List.tail_cons, List.length_dropLast, List.length_cons]
    omega

/-- `resolve_hostname`, with the addresses `getaddrinfo` finds for a name, or
its message and code. -/
def resolveHostname (getaddrinfo : Str → Except (Str × ℤ) (List IpAddress)) (hostname : Str) :
    Except HostnameResolutionError (List IpAddress) :=
  if hostname.contains (Char.ofNat 0) then .error (.invalidCString hostname)
  else (getaddrinfo hostname).mapError fun e => .resolutionFailure hostname e.1 e.2

/-- `TryFrom<&str>`: what is no address is taken for a name. -/
def tryFrom (getaddrinfo : Str → Except (Str × ℤ) (List IpAddress)) (ip : Str) : Except IpParseError IpAddress :=
  let ipFormatted := trim ip
  if isV4 ipFormatted then (v4FromStr ipFormatted).mapError .ipV4ParseError
  else if isV6 ipFormatted then v6 ipFormatted
  else
    match resolveHostname getaddrinfo ipFormatted with
    | .error e => .error (.hostnameResolutionError e)
    | .ok [] => .error (.noAddressFound ipFormatted)
    | .ok (ip :: _) => .ok ip

/-! ### Display -/

/-- `{}` of a byte. -/
def decimal (n : UInt8) : Str := Nat.toDigits 10 n.toNat

/-- `{:04x}` of a group. -/
def hex4 (n : ℕ) : Str :=
  [Nat.digitChar (n / 4096 % 16), Nat.digitChar (n / 256 % 16), Nat.digitChar (n / 16 % 16),
    Nat.digitChar (n % 16)]

/-- `is_v4_mapped_v6`. -/
def isV4MappedV6 (addr : Vector UInt8 16) : Bool :=
  (addr.toList.take 10).all (· == 0) && addr[10] == 0xff && addr[11] == 0xff

/-- `bytes_as_uncompressed_v6`. -/
def bytesAsUncompressedV6 (bytes : Vector UInt8 16) : Str := [':'].intercalate ((groups bytes).map hex4)

/-- `while part.len() > 1 && part.starts_with("0")`: the zero is removed. -/
def stripZeroes : Str → Str
  | '0' :: c :: cs => stripZeroes (c :: cs)
  | part => part

/-- The first loop over the parts. -/
def stripParts (addr : Str) : List Str → Except IpV6CompressError (List Str)
  | [] => .ok []
  | part :: parts =>
    if len part = 0 ∨ len part > 4 then .error (.invalidUncompressedV6Value addr)
    else (stripParts addr parts).map (stripZeroes part :: ·)

/-- The search for the longest run of zeroes. -/
structure Scan where
  doubleColonIndex : Option ℕ
  zeroCount : ℕ
  mostZeroes : ℕ
  i : ℕ
  deriving DecidableEq, Repr

/-- One part: a run of zeroes goes on, or ends. -/
def Scan.part (scan : Scan) (part : Str) : Scan :=
  if part = ['0'] then
    let zeroCount := scan.zeroCount + 1
    if zeroCount > scan.mostZeroes then ⟨some (scan.i + 1 - zeroCount), zeroCount, zeroCount, scan.i + 1⟩
    else { scan with zeroCount, i := scan.i + 1 }
  else { scan with zeroCount := 0, i := scan.i + 1 }

/-- The second loop over the parts. -/
def scanParts (addr : Str) : Scan → List Str → Except IpV6CompressError Scan
  | scan, [] => .ok scan
  | scan, part :: parts =>
    if part = [] then .error (.invalidUncompressedV6Value addr) else scanParts addr (scan.part part) parts

/-- `while remaining > 1`: `n` times, the part at `i` is removed. -/
def removeParts (i : ℕ) : ℕ → List Str → List Str
  | 0, parts => parts
  | n + 1, parts => removeParts i n (parts.eraseIdx i)

/-- The run is replaced by one empty part. -/
def Scan.clear (scan : Scan) (parts : List Str) : List Str :=
  match scan.doubleColonIndex with
  | some i => if scan.mostZeroes > 1 then (removeParts i (scan.mostZeroes - 1) parts).set i [] else parts
  | none => parts

/-- The text of the parts, with a second empty part at an end where the first
one is. -/
def Scan.recombined (scan : Scan) (parts : List Str) : Str :=
  if parts = [[]] then [':', ':']
  else if scan.doubleColonIndex = some 0 then [':'].intercalate ([] :: parts)
  else if scan.doubleColonIndex = some (parts.length - 1) then [':'].intercalate (parts ++ [[]])
  else [':'].intercalate parts

/-- `compress_v6`: leading zeroes go, and so does the first of the longest runs. -/
def compressV6 (addr : Str) : Except IpV6CompressError Str :=
  let parts := (addr.splitOn ':').map trim
  if parts.length ≠ 8 then .error (.invalidUncompressedV6Format addr)
  else
    (stripParts addr parts).bind fun parts =>
      (scanParts addr ⟨none, 0, 0, 0⟩ parts).map fun scan => scan.recombined (scan.clear parts)

/-- `Display`. -/
def IpAddress.toString : IpAddress → Str
  | .v4 addr => ['.'].intercalate (addr.toList.map decimal)
  | .v6 addr =>
    if isV4MappedV6 addr then mappedPrefix ++ ['.'].intercalate ((addr.toList.drop 12).map decimal)
    else
      let uncompressed := bytesAsUncompressedV6 addr
      match compressV6 uncompressed with
      | .ok compressed => compressed
      | .error _ => uncompressed

end Net
end ClAsync
