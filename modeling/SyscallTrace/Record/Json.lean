import SyscallTrace.Json
import SyscallTrace.Record

/-!
# Records as JSON

One compact JSON object for each record. Alternatives without contents are strings, alternatives
with contents are objects with one member, and arguments and return values name their type.
-/

namespace SyscallTrace

open Json

def Parameter.toJson (p : Parameter) : Json :=
  ofMembers [("name", string p.name), ("type", ofOption string p.type?),
    ("pointer", bool p.isPointer), ("struct", bool p.isStruct)]

def Duration.toJson (d : Duration) : Json :=
  ofMembers [("secs", int d.seconds), ("nanos", int d.nanos)]

def FileDescriptor.toJson : FileDescriptor → Json
  | number fd => ofMembers [("Number", int fd.toInt)]
  | currentDirectory => ofString "AtFdcwd"

def UnixPath.toJson : UnixPath → Json
  | unnamed => ofString "Unnamed"
  | pathname path => ofMembers [("Pathname", string path)]
  | abstract name => ofMembers [("Abstract", string name)]

def SocketAddress.toJson : SocketAddress → Json
  | null => ofString "Null"
  | unix family path =>
    ofMembers [("Unix", ofMembers [("family", string family), ("path", path.toJson)])]
  | unspec family data =>
    ofMembers [("Unspec", ofMembers [("family", string family), ("data", string data)])]
  | inet family port address =>
    ofMembers [("Inet", ofMembers [("family", string family), ("port", int port.toNat),
      ("addr", string address.text)])]
  | netlink family pid groups =>
    ofMembers [("Netlink", ofMembers [("family", string family), ("pid", int pid.toNat),
      ("groups", string groups)])]
  | other family fields =>
    ofMembers [("Other", ofMembers [("family", string family),
      ("fields", array (fields.map string))])]

def StatBuffer.toJson (s : StatBuffer) : Json :=
  ofMembers [("fields", array (s.fields.map string))]

def PollFd.toJson (p : PollFd) : Json :=
  ofMembers [("fd", int p.fd.toInt), ("events", string p.events),
    ("revents", ofOption string p.revents)]

def Placeholder.toJson (p : Placeholder) : Json :=
  ofMembers [("expected", p.expected.toJson), ("given", ofOption string p.given)]

namespace ArgumentValue

def typeName : ArgumentValue → String
  | int _ => "Int"
  | hex _ => "Hex"
  | fileDescriptor _ => "FileDescriptor"
  | filepath _ => "Filepath"
  | flags _ => "Flags"
  | sockaddr _ => "Sockaddr"
  | stat _ => "Stat"
  | pollFdList _ => "PollFdList"
  | unimplemented _ => "Unimplemented"
  | missing _ => "MissingValue"

/-- What the value holds, without its type. -/
def payload : ArgumentValue → Json
  | int value => .int value.toInt
  | hex t | filepath t | unimplemented t => .string t
  | fileDescriptor fd => fd.toJson
  | flags symbols => .array (symbols.map .string)
  | sockaddr address => address.toJson
  | stat buffer => buffer.toJson
  | pollFdList list => .array (list.map PollFd.toJson)
  | missing placeholder => placeholder.toJson

def toJson (v : ArgumentValue) : Json :=
  ofMembers [("type", ofString v.typeName), ("value", v.payload)]

end ArgumentValue

def ReturnValue.toJson : ReturnValue → Json
  | int value => ofMembers [("type", ofString "Int"), ("value", .int value.toInt)]
  | pointer address => ofMembers [("type", ofString "Pointer"), ("value", string address)]
  | noReturn => ofMembers [("type", ofString "NoReturn")]

def Return.toJson (r : Return) : Json :=
  ofMembers [("value", r.value.toJson), ("error_label", ofOption string r.label)]

/-- Of a timestamp, only the printed text is written. -/
def Timestamp.toJson (t : Timestamp) : Json :=
  ofMembers [("raw", string t.raw)]

def Record.toJson (r : Record) : Json :=
  ofMembers [("original_line", string r.originalLine),
    ("unfinished_line", ofOption string r.unfinishedLine), ("kind", string r.kind.name),
    ("pid", int r.pid.toNat), ("name", string r.name),
    ("args", array (r.args.map ArgumentValue.toJson)), ("ret", ofOption Return.toJson r.ret),
    ("inst_pointer", ofOption string r.instPointer),
    ("timestamp", ofOption Timestamp.toJson r.timestamp),
    ("elapsed_time", ofOption Duration.toJson r.elapsed)]

/-- The lines that records are written as. -/
def recordLines (records : List Record) : List Text :=
  records.map fun r => r.toJson.text

end SyscallTrace
