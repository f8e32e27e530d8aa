/-!
# Errors of the operating system

An error of the operating system has a kind, or is known by the number that the system gave it
(`SystemError`). A kind has a name, under which it is looked up, and a text; an error of a kind may
come with a message, which is shown in place of that text. A numbered error shows the system's
text for the number, and the number.

Three kinds are passing conditions: an interrupted operation, one that would have to wait, and one
that took too long. `SystemError.isPassing` tells them, and the three numbers that stand for them,
from all others.
-/

set_option autoImplicit false
set_option relaxedAutoImplicit false

namespace Escalation

/-- The kind of an error of the operating system. -/
inductive ErrorKind
  | notFound | permissionDenied | connectionRefused | connectionReset | connectionAborted
  | notConnected | addrInUse | addrNotAvailable | brokenPipe | alreadyExists | wouldBlock
  | invalidInput | invalidData | timedOut | writeZero | interrupted | unsupported
  | unexpectedEof | outOfMemory | other | storageFull | notADirectory | isADirectory
  | directoryNotEmpty | readOnlyFilesystem | staleNetworkFileHandle | notSeekable
  | resourceBusy | deadlock | networkDown | networkUnreachable | hostUnreachable
  | argumentListTooLong
  deriving DecidableEq, Repr, Inhabited

namespace ErrorKind

/-- Every kind, in the order of declaration. -/
def all : List ErrorKind :=
  [.notFound, .permissionDenied, .connectionRefused, .connectionReset, .connectionAborted,
    .notConnected, .addrInUse, .addrNotAvailable, .brokenPipe, .alreadyExists, .wouldBlock,
    .invalidInput, .invalidData, .timedOut, .writeZero, .interrupted, .unsupported,
    .unexpectedEof, .outOfMemory, .other, .storageFull, .notADirectory, .isADirectory,
    .directoryNotEmpty, .readOnlyFilesystem, .staleNetworkFileHandle, .notSeekable,
    .resourceBusy, .deadlock, .networkDown, .networkUnreachable, .hostUnreachable,
    .argumentListTooLong]

/-- The name of a kind. -/
def name : ErrorKind → String
  | .notFound => "NotFound"
  | .permissionDenied => "PermissionDenied"
  | .connectionRefused => "ConnectionRefused"
  | .connectionReset => "ConnectionReset"
  | .connectionAborted => "ConnectionAborted"
  | .notConnected => "NotConnected"
  | .addrInUse => "AddrInUse"
  | .addrNotAvailable => "AddrNotAvailable"
  | .brokenPipe => "BrokenPipe"
  | .alreadyExists => "AlreadyExists"
  | .wouldBlock => "WouldBlock"
  | .invalidInput => "InvalidInput"
  | .invalidData => "InvalidData"
  | .timedOut => "TimedOut"
  | .writeZero => "WriteZero"
  | .interrupted => "Interrupted"
  | .unsupported => "Unsupported"
  | .unexpectedEof => "UnexpectedEof"
  | .outOfMemory => "OutOfMemory"
  | .other => "Other"
  | .storageFull => "StorageFull"
  | .notADirectory => "NotADirectory"
  | .isADirectory => "IsADirectory"
  | .directoryNotEmpty => "DirectoryNotEmpty"
  | .readOnlyFilesystem => "ReadOnlyFilesystem"
  | .staleNetworkFileHandle => "StaleNetworkFileHandle"
  | .notSeekable => "NotSeekable"
  | .resourceBusy => "ResourceBusy"
  | .deadlock => "Deadlock"
  | .networkDown => "NetworkDown"
  | .networkUnreachable => "NetworkUnreachable"
  | .hostUnreachable => "HostUnreachable"
  | .argumentListTooLong => "ArgumentListTooLong"

/-- The text shown for an error of a kind without a message. -/
def text : ErrorKind → String
  | .notFound => "entity not found"
  | .permissionDenied => "permission denied"
  | .connectionRefused => "connection refused"
  | .connectionReset => "connection reset"
  | .connectionAborted => "connection aborted"
  | .notConnected => "not connected"
  | .addrInUse => "address in use"
  | .addrNotAvailable => "address not available"
  | .brokenPipe => "broken pipe"
  | .alreadyExists => "entity already exists"
  | .wouldBlock => "operation would block"
  | .invalidInput => "invalid input parameter"
  | .invalidData => "invalid data"
  | .timedOut => "timed out"
  | .writeZero => "write zero"
  | .interrupted => "operation interrupted"
  | .unsupported => "unsupported"
  | .unexpectedEof => "unexpected end of file"
  | .outOfMemory => "out of memory"
  | .other => "other error"
  | .storageFull => "no storage space"
  | .notADirectory => "not a directory"
  | .isADirectory => "is a directory"
  | .directoryNotEmpty => "directory not empty"
  | .readOnlyFilesystem => "read-only filesystem or storage medium"
  | .staleNetworkFileHandle => "stale network file handle"
  | .notSeekable => "seek on unseekable file"
  | .resourceBusy => "resource busy"
  | .deadlock => "deadlock"
  | .networkDown => "network down"
  | .networkUnreachable => "network unreachable"
  | .hostUnreachable => "host unreachable"
  | .argumentListTooLong => "argument list too long"

/-- The kind of a name. -/
def ofName? (name : String) : Option ErrorKind :=
  all.find? fun kind ↦ kind.name == name

/-- A kind is found under its own name. -/
@[simp] theorem ofName?_name (kind : ErrorKind) : ofName? kind.name = some kind := by
  cases kind <;> decide

/-- The kinds of conditions that pass by themselves. -/
def isPassing : ErrorKind → Bool
  | .interrupted | .wouldBlock | .timedOut => true
  | _ => false

end ErrorKind

/-- The texts of the numbered errors, from number zero on. Numbers without an error of their own
have an empty text here. -/
def systemTexts : List String :=
  ["Success", "Operation not permitted", "No such file or directory", "No such process",
    "Interrupted system call", "Input/output error", "No such device or address",
    "Argument list too long", "Exec format error", "Bad file descriptor", "No child processes",
    "Resource temporarily unavailable", "Cannot allocate memory", "Permission denied",
    "Bad address", "Block device required", "Device or resource busy", "File exists",
    "Invalid cross-device link", "No such device", "Not a directory", "Is a directory",
    "Invalid argument", "Too many open files in system", "Too many open files",
    "Inappropriate ioctl for device", "Text file busy", "File too large",
    "No space left on device", "Illegal seek", "Read-only file system", "Too many links",
    "Broken pipe", "Numerical argument out of domain", "Numerical result out of range",
    "Resource deadlock avoided", "File name too long", "No locks available",
    "Function not implemented", "Directory not empty", "Too many levels of symbolic links", "",
    "No message of desired type", "Identifier removed", "Channel number out of range",
    "Level 2 not synchronized", "Level 3 halted", "Level 3 reset", "Link number out of range",
    "Protocol driver not attached", "No CSI structure available", "Level 2 halted",
    "Invalid exchange", "Invalid request descriptor", "Exchange full", "No anode",
    "Invalid request code", "Invalid slot", "", "Bad font file format", "Device not a stream",
    "No data available", "Timer expired", "Out of streams resources",
    "Machine is not on the network", "Package not installed", "Object is remote",
    "Link has been severed", "Advertise error", "Srmount error", "Communication error on send",
    "Protocol error", "Multihop attempted", "RFS specific error", "Bad message",
    "Value too large for defined data type", "Name not unique on network",
    "File descriptor in bad state", "Remote address changed",
    "Can not access a needed shared library", "Accessing a corrupted shared library",
    ".lib section in a.out corrupted", "Attempting to link in too many shared libraries",
    "Cannot exec a shared library directly", "Invalid or incomplete multibyte or wide character",
    "Interrupted system call should be restarted", "Streams pipe error", "Too many users",
    "Socket operation on non-socket", "Destination address required", "Message too long",
    "Protocol wrong type for socket", "Protocol not available", "Protocol not supported",
    "Socket type not supported", "Operation not supported", "Protocol family not supported",
    "Address family not supported by protocol", "Address already in use",
    "Cannot assign requested address", "Network is down", "Network is unreachable",
    "Network dropped connection on reset", "Software caused connection abort",
    "Connection reset by peer", "No buffer space available",
    "Transport endpoint is already connected", "Transport endpoint is not connected",
    "Cannot send after transport endpoint shutdown", "Too many references: cannot splice",
    "Connection timed out", "Connection refused", "Host is down", "No route to host",
    "Operation already in progress", "Operation now in progress", "Stale file handle",
    "Structure needs cleaning", "Not a XENIX named type file", "No XENIX semaphores available",
    "Is a named type file", "Remote I/O error", "Disk quota exceeded", "No medium found",
    "Wrong medium type", "Operation canceled", "Required key not available", "Key has expired",
    "Key has been revoked", "Key was rejected by service", "Owner died", "State not recoverable",
    "Operation not possible due to RF-kill", "Memory page has hardware error"]

/-- The text of a numbered error. -/
def systemText (number : Int) : String :=
  let known := if number < 0 then "" else systemTexts.getD number.toNat ""
  if known.isEmpty then "Unknown error " ++ toString number else known

/-- An error reported by the operating system. -/
inductive SystemError
  /-- An error known by its number. -/
  | numbered (number : Int)
  /-- An error known by its kind, with a message of its own or without. -/
  | ofKind (kind : ErrorKind) (message : Option String)
  deriving DecidableEq, Repr

namespace SystemError

/-- The numbers of the errors whose kind is passing: interrupted, would block, timed out. -/
def passingNumbers : List Int := [4, 11, 110]

/-- Whether the condition passes by itself. -/
def isPassing : SystemError → Bool
  | .numbered number => passingNumbers.contains number
  | .ofKind kind _ => kind.isPassing

/-- The text shown for an error. -/
def text : SystemError → String
  | .numbered number => systemText number ++ " (os error " ++ toString number ++ ")"
  | .ofKind _ (some message) => message
  | .ofKind kind none => kind.text

end SystemError

end Escalation
