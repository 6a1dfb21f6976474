import Xmap.Target.IpTree

/-!
# White and black lists (`xm_wblist`)

Strings are lists of characters without the terminating null. The C library is modelled where its
result depends on the text alone; address parsing, name resolution and the file system belong to the
host and are parameters.
-/

namespace Xmap.Target

abbrev CStr := List Char

/-- `ADDR_DISALLOWED`. -/
def addrDisallowed : Nat := 0

/-- `ADDR_ALLOWED`. -/
def addrAllowed : Nat := 1

/-- `ntohl` on a little-endian host. -/
def ntohl (a : Nat) : Nat :=
  a % 256 * 2 ^ 24 + a / 2 ^ 8 % 256 * 2 ^ 16 + a / 2 ^ 16 % 256 * 2 ^ 8 + a / 2 ^ 24 % 256

/-! ## The C library -/

/-- An element of the list that `getaddrinfo` returns. -/
inductive AddrInfo where
  | inet (sAddr : Fin (2 ^ 32))
  | other
deriving DecidableEq, Repr

/-- The host's address parser, resolver and files. A null result is a failure. -/
structure Host where
  inetAton : CStr → Option (Fin (2 ^ 32))
  getaddrinfo : CStr → Option (List AddrInfo)
  fopen : CStr → Option CStr
  /-- The address literal in the source is a well-formed one. -/
  inetAton_any : inetAton "0.0.0.0".toList = some 0

/-- `isspace` in the C locale. -/
def isSpace (c : Char) : Bool :=
  c == ' ' || c == '\t' || c == '\n' || c == '\r' || c == Char.ofNat 11 || c == Char.ofNat 12

structure Strtol where
  value : Int
  /-- `end != nptr` -/
  converted : Bool
  /-- `errno == ERANGE` -/
  erange : Bool
deriving DecidableEq, Repr

/-- `strtol(s, &end, 10)` with a 64-bit `long`. -/
def strtol (s : CStr) : Strtol :=
  let s := s.dropWhile isSpace
  let (neg, s) := match s with
    | '-' :: r => (true, r)
    | '+' :: r => (false, r)
    | r => (false, r)
  let ds := s.takeWhile Char.isDigit
  let m : Nat := ds.foldl (fun n c => n * 10 + (c.toNat - '0'.toNat)) 0
  let v : Int := if neg then -(m : Int) else m
  if ds.isEmpty then { value := 0, converted := false, erange := false }
  else if v > 2 ^ 63 - 1 then { value := 2 ^ 63 - 1, converted := true, erange := true }
  else if v < -2 ^ 63 then { value := -2 ^ 63, converted := true, erange := true }
  else { value := v, converted := true, erange := false }

/-- The conversion of a `long` to an `int`. -/
def toInt32 (v : Int) : Int := (v + 2 ^ 31) % 2 ^ 32 - 2 ^ 31

/-- `strchr(ip, '/')`: the part before the first slash and, if there is one, the part after it. -/
def splitSlash : CStr → CStr × Option CStr
  | [] => ([], none)
  | '/' :: s => ([], some s)
  | c :: s => (c :: (splitSlash s).1, (splitSlash s).2)

/-- `fgets` with room for `n` characters: the line with its newline, and what follows. -/
def fgets : Nat → CStr → CStr × CStr
  | 0, s => ([], s)
  | _ + 1, [] => ([], [])
  | n + 1, c :: s => if c = '\n' then ([c], s) else (c :: (fgets n s).1, (fgets n s).2)

/-- The loop `while (fgets(line, sizeof(line), fp) != NULL)` over a buffer of 1000 bytes. Each round
takes a character, so the length of the content bounds the rounds. -/
def readLines : Nat → CStr → List CStr
  | 0, _ => []
  | _ + 1, [] => []
  | n + 1, c :: s => (fgets 999 (c :: s)).1 :: readLines n (fgets 999 (c :: s)).2

def fileLines (content : CStr) : List CStr := readLines content.length content

/-- The word that `sscanf(line, "%256s", ip)` reads once the comment is cut off; `none` is `EOF`.
The line ends at a null byte of the file, if it has one. -/
def lineEntry (line : CStr) : Option CStr :=
  let s := ((line.takeWhile (· != Char.ofNat 0)).takeWhile (· != '#')).dropWhile isSpace
  if s.isEmpty then none else some ((s.takeWhile (!isSpace ·)).take 256)

/-! ## Reading entries -/

/-- `_add_iptree`. -/
def addIptree (t : XmIptree) (sAddr : Nat) (prefixLen : Int) (value : Nat) : XmIptree :=
  xmIptreeAdd t (ntohl sAddr) prefixLen value

/-- The loop of `init_from_string` over the resolved addresses, with `ret`. -/
def addResolved (prefixLen : Int) (value : Nat) (t : XmIptree) (ret : Int) :
    List AddrInfo → XmIptree × Int
  | [] => (t, ret)
  | .other :: res => addResolved prefixLen value t ret res
  | .inet sAddr :: res => addResolved prefixLen value (addIptree t sAddr prefixLen value) 0 res

/-- `init_from_string` after the prefix length is known. -/
def initFromAddress (h : Host) (t : XmIptree) (ip : CStr) (prefixLen : Int) (value : Nat) :
    XmIptree × Int :=
  match h.inetAton ip with
  | none =>
    match h.getaddrinfo ip with
    | none => (t, -1)
    | some res => addResolved prefixLen value t (-1) res
  | some sAddr => (addIptree t sAddr prefixLen value, 0)

/-- `init_from_string`. -/
def initFromString (h : Host) (t : XmIptree) (ip : CStr) (value : Nat) : XmIptree × Int :=
  match splitSlash ip with
  | (ip, none) => initFromAddress h t ip 256 value
  | (ip, some len) =>
    let r := strtol len
    let prefixLen := toInt32 r.value
    if !r.converted ∨ r.erange ∨ prefixLen < 0 ∨ prefixLen > 256 then (t, -1)
    else initFromAddress h t ip prefixLen value

/-- `init_from_file`. The failure of a line is logged unless `ignore_invalid_hosts` is set. -/
def initFromFile (h : Host) (t : XmIptree) (file : CStr) (value : Nat)
    (_ignoreInvalidHosts : Bool) : XmIptree × Int :=
  match h.fopen file with
  | none => (t, -1)
  | some content =>
    ((fileLines content).foldl (fun t line =>
      match lineEntry line with
      | none => t
      | some ip => (initFromString h t ip value).1) t, 0)

/-- An array of entries and its length, which callers hold in an `int`. -/
structure CidrArray where
  cidrs : List CStr
  len_lt : cidrs.length < 2 ^ 31

/-- `init_from_array`. The failure of an entry is logged unless `ignore_invalid_hosts` is set. -/
def initFromArray (h : Host) (t : XmIptree) (cidrs : CidrArray) (value : Nat)
    (_ignoreInvalidHosts : Bool) : XmIptree :=
  cidrs.cidrs.foldl (fun t ip => (initFromString h t ip value).1) t

/-! ## The list -/

/-- `xm_wblist_t`. -/
structure XmWblist where
  wbIptree : XmIptree
deriving DecidableEq, Repr

/-- `xm_wblist_lookup_index`. -/
def xmWblistLookupIndex (wblist : XmWblist) (index : Nat) : XmWblist × Nat :=
  let r := xmIptreeLookupIndex wblist.wbIptree index addrAllowed
  ({ wbIptree := r.1 }, ntohl r.2)

/-- `xm_wblist_is_allowed`. -/
def xmWblistIsAllowed (wblist : XmWblist) (sAddr : Nat) : Bool :=
  xmIptreeLookupIp wblist.wbIptree (ntohl sAddr) == addrAllowed

/-- `xm_wblist_count_allowed`. -/
def xmWblistCountAllowed (wblist : XmWblist) : Nat :=
  xmIptreeCountIps wblist.wbIptree addrAllowed

/-- The arguments of `xm_wblist_create`; a missing file name or array is a null pointer. -/
structure WblistArgs where
  whitelistFilename : Option CStr
  blacklistFilename : Option CStr
  whitelistEntries : Option CidrArray
  blacklistEntries : Option CidrArray
  ignoreInvalidHosts : Bool

/-- The test for a whitelist: a file, or a positive number of entries. -/
def WblistArgs.hasWhitelist (args : WblistArgs) : Bool :=
  args.whitelistFilename.isSome ||
    decide (0 < (args.whitelistEntries.map (·.cidrs.length)).getD 0)

/-- Reads the sources of one colour: the file, if given, then the array, if given. -/
def initSources (h : Host) (t : XmIptree) (file : Option CStr) (entries : Option CidrArray)
    (value : Nat) (ignoreInvalidHosts : Bool) : XmIptree :=
  let t := match file with
    | none => t
    | some f => (initFromFile h t f value ignoreInvalidHosts).1
  match entries with
  | none => t
  | some a => initFromArray h t a value ignoreInvalidHosts

/-- `xm_wblist_create` up to the painting: the tree with every source applied. -/
def wblistTree (h : Host) (args : WblistArgs) : XmIptree :=
  let t :=
    if args.hasWhitelist then
      initSources h (xmIptreeCreate addrDisallowed) args.whitelistFilename args.whitelistEntries
        addrAllowed args.ignoreInvalidHosts
    else xmIptreeCreate addrAllowed
  let t := initSources h t args.blacklistFilename args.blacklistEntries addrDisallowed
    args.ignoreInvalidHosts
  (initFromString h t "0.0.0.0".toList addrDisallowed).1

/-- `xm_wblist_create`; `none` is `NULL`. -/
def xmWblistCreate (h : Host) (args : WblistArgs) : Option XmWblist :=
  let wblist : XmWblist := { wbIptree := xmIptreePaintValue (wblistTree h args) addrAllowed }
  let allowed := xmWblistCountAllowed wblist
  if allowed = 0 then none else some wblist

example : strtol "24#".toList = { value := 24, converted := true, erange := false } := by decide

end Xmap.Target
