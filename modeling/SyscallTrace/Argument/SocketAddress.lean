import SyscallTrace.Argument.Braced

/-!
# Socket addresses

A socket address is printed as a structure whose first field is the address family. Addresses of
the Unix, unspecified, internet and netlink families are decoded; the fields of others are kept.
`SocketAddress.take` reads one from the front of the tokens and `SocketAddress.text` prints it.
-/

namespace SyscallTrace

/-- The name of a Unix socket: none, a path, or a name outside the file system. -/
inductive UnixPath where
  | unnamed
  | pathname (path : Text)
  | abstract (name : Text)
  deriving DecidableEq

/-- Four octets. -/
structure Ipv4 where
  a : UInt8
  b : UInt8
  c : UInt8
  d : UInt8
  deriving DecidableEq

namespace Ipv4

/-- Reads one octet: at most three digits, no leading zero, at most 255. -/
def octet? (t : Text) : Option UInt8 :=
  if Decimal.isDigits t && t.length ≤ 3 && (t.length == 1 || !t.startsWith ['0']) then
    Decimal.uint8? t
  else none

/-- Reads four octets between points. -/
def ofText? (t : Text) : Option Ipv4 :=
  match t.splitOn '.' with
  | [a, b, c, d] => do some ⟨← octet? a, ← octet? b, ← octet? c, ← octet? d⟩
  | _ => none

def text (ip : Ipv4) : Text :=
  ['.'].intercalate <| [ip.a, ip.b, ip.c, ip.d].map fun octet => Decimal.ofNat octet.toNat

end Ipv4

inductive SocketAddress where
  | null
  | unix (family : Text) (path : UnixPath)
  | unspec (family data : Text)
  | inet (family : Text) (port : UInt16) (address : Ipv4)
  | netlink (family : Text) (pid : UInt32) (groups : Text)
  | other (family : Text) (fields : List Text)
  deriving DecidableEq

namespace SocketAddress

/-- The address family as printed. -/
def family? : SocketAddress → Option Text
  | null => none
  | unix family _ | unspec family _ | inet family _ _ | netlink family _ _ | other family _ =>
    some family

/-- The families that are decoded, by the last part of their name. -/
inductive Decoding where
  | unix
  | unspec
  | inet
  | netlink
  | verbatim
  deriving DecidableEq

def Decoding.ofFamily (family : Text) : Decoding :=
  if family.endsWith "_FILE".toList || family.endsWith "_LOCAL".toList ||
      family.endsWith "_UNIX".toList then .unix
  else if family.endsWith "_UNSPEC".toList then .unspec
  else if family.endsWith "_INET".toList then .inet
  else if family.endsWith "_NETLINK".toList then .netlink
  else .verbatim

/-- What stands between double quotes. -/
def unquote? (t : Text) : Option Text :=
  (t.dropPrefix? ['"']).bind fun r => r.dropSuffix? ['"']

/-- What follows the first of the given starts that the text has. -/
def dropEither? (t p q : Text) : Option Text :=
  (t.dropPrefix? p).or (t.dropPrefix? q)

/-- Reads the name field of a Unix socket. -/
def unixPath? (field : Text) : Option UnixPath :=
  if field = [] ∨ field = "NULL".toList then some .unnamed
  else do
    let value ← dropEither? field "sun_path=".toList "path=".toList
    match value.dropPrefix? ['@'] with
    | some name => (unquote? name).map .abstract
    | none => (unquote? value).map .pathname

/-- Reads the data field of an unspecified address. It may be left out. -/
def data (field : Text) : Except StructureFault Text :=
  match field.dropPrefix? "sa_data=".toList with
  | some quoted => (unquote? quoted).elim (.error .badData) .ok
  | none => if field.isEmpty then .ok [] else .error .noData

def port? (field : Text) : Option UInt16 := do
  let t ← field.dropPrefix? "sin_port=htons(".toList
  Decimal.uint16? (← t.dropSuffix? [')'])

def quotedAddress? (field : Text) : Option Text := do
  let t ← field.dropPrefix? "sin_addr=inet_addr(\"".toList
  t.dropSuffix? "\")".toList

def pid? (field : Text) : Option UInt32 :=
  (dropEither? field "nl_pid=".toList "pid=".toList).bind Decimal.uint32?

def groups? (field : Text) : Option Text :=
  dropEither? field "nl_groups=".toList "groups=".toList

/-- Reads the port and the address of an internet socket. -/
def ofInet (family : Text) (fields : List Text) : Except StructureFault SocketAddress :=
  match fields with
  | [portField, addressField] => do
    let port ← (port? portField).elim (.error .badPort) .ok
    let quoted ← (quotedAddress? addressField).elim (.error .badAddress) .ok
    let address ← (Ipv4.ofText? quoted).elim (.error .invalidAddress) .ok
    .ok (inet family port address)
  | _ => .error .inetFields

/-- Reads the process and the groups of a netlink socket. -/
def ofNetlink (family : Text) (fields : List Text) : Except StructureFault SocketAddress :=
  match fields with
  | [pidField, groupsField] => do
    let pid ← (pid? pidField).elim (.error .badNetlinkPid) .ok
    let groups ← (groups? groupsField).elim (.error .badNetlinkGroups) .ok
    .ok (netlink family pid groups)
  | _ => .error .netlinkFields

/-- Reads the fields after the family. -/
def ofFields (family : Text) (fields : List Text) : Except StructureFault SocketAddress :=
  match Decoding.ofFamily family with
  | .unix => (unixPath? (Text.joinCommas fields)).elim (.error .badUnixPath) fun path =>
      .ok (unix family path)
  | .unspec => (data (Text.joinCommas fields)).map (unspec family)
  | .inet => ofInet family fields
  | .netlink => ofNetlink family fields
  | .verbatim => .ok (other family fields)

/-- Reads the family from the first field. -/
def readFamily (field : Text) : Except StructureFault Text :=
  match field.dropPrefix? "sa_family=".toList with
  | none => .error .familyNotFirst
  | some family =>
    if family.startsWith "AF_".toList || family.startsWith "PF_".toList then .ok family
    else .error .unknownFamily

/-- Reads the fields of an address. -/
def ofStructure (fields : List Text) : Except StructureFault SocketAddress := do
  let family ← readFamily (fields.headD [])
  ofFields family fields.tail

/-- Reads an address from the front of the tokens, and returns the tokens after it. There is no
address where only a pointer was printed. -/
def take (tokens : List Text) : Except CastError (Option SocketAddress × List Text) :=
  match tokens with
  | [] => .error (.malformed .sockaddr [] .noTokens)
  | first :: rest =>
    if first.startsWith "0x".toList then .ok (none, rest)
    else if first = "0".toList ∨ first = "NULL".toList then .ok (some null, rest)
    else do
      let braced ← Braced.take .sockaddr tokens
      match ofStructure braced.fields with
      | .ok address => .ok (some address, braced.rest)
      | .error fault => .error (.malformed .sockaddr braced.raw fault)

/-- The fields between braces, after the family. -/
def textOf (family : Text) (fields : List Text) : Text :=
  ['{'] ++ Text.joinCommas (("sa_family=".toList ++ family) :: fields) ++ ['}']

/-- The printed form of an address. -/
def text : SocketAddress → Text
  | null => "NULL".toList
  | unix family .unnamed => textOf family []
  | unix family (.pathname path) => textOf family ["sun_path=\"".toList ++ path ++ ['"']]
  | unix family (.abstract name) => textOf family ["sun_path=@\"".toList ++ name ++ ['"']]
  | unspec family data => textOf family ["sa_data=\"".toList ++ data ++ ['"']]
  | inet family port address =>
    textOf family
      ["sin_port=htons(".toList ++ Decimal.ofNat port.toNat ++ [')'],
        "sin_addr=inet_addr(\"".toList ++ address.text ++ "\")".toList]
  | netlink family pid groups =>
    textOf family
      ["nl_pid=".toList ++ Decimal.ofNat pid.toNat, "nl_groups=".toList ++ groups]
  | other family fields => textOf family fields

end SocketAddress

end SyscallTrace
