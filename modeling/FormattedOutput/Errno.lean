import FormattedOutput.Outcome

/-! Error numbers: those that a failing write sets, and the texts and names
by which they are known. -/

namespace FormattedOutput.Errno

/-- An argument is invalid. -/
def invalid : Int := 22

/-- A value is too large for its type. -/
def overflow : Int := 75

/-- A character cannot be encoded. -/
def illegalSequence : Int := 84

/-- The error number that a cause of failure sets, if it sets one. -/
def ofCause : Cause → Option Int
  | .unfinished => some invalid
  | .oversized => some overflow
  | .unencodable => some illegalSequence
  | .refused => none

/-- The texts of the error numbers from 0 on. -/
def texts : List (Option String) :=
  [some "Success", some "Operation not permitted", some "No such file or directory",
   some "No such process", some "Interrupted system call", some "Input/output error",
   some "No such device or address", some "Argument list too long", some "Exec format error",
   some "Bad file descriptor", some "No child processes", some "Resource temporarily unavailable",
   some "Cannot allocate memory", some "Permission denied", some "Bad address",
   some "Block device required", some "Device or resource busy", some "File exists",
   some "Invalid cross-device link", some "No such device", some "Not a directory",
   some "Is a directory", some "Invalid argument", some "Too many open files in system",
   some "Too many open files", some "Inappropriate ioctl for device", some "Text file busy",
   some "File too large", some "No space left on device", some "Illegal seek",
   some "Read-only file system", some "Too many links", some "Broken pipe",
   some "Numerical argument out of domain", some "Numerical result out of range",
   some "Resource deadlock avoided", some "File name too long", some "No locks available",
   some "Function not implemented", some "Directory not empty",
   some "Too many levels of symbolic links", none, some "No message of desired type",
   some "Identifier removed", some "Channel number out of range", some "Level 2 not synchronized",
   some "Level 3 halted", some "Level 3 reset", some "Link number out of range",
   some "Protocol driver not attached", some "No CSI structure available", some "Level 2 halted",
   some "Invalid exchange", some "Invalid request descriptor", some "Exchange full",
   some "No anode", some "Invalid request code", some "Invalid slot", none,
   some "Bad font file format", some "Device not a stream", some "No data available",
   some "Timer expired", some "Out of streams resources", some "Machine is not on the network",
   some "Package not installed", some "Object is remote", some "Link has been severed",
   some "Advertise error", some "Srmount error", some "Communication error on send",
   some "Protocol error", some "Multihop attempted", some "RFS specific error",
   some "Bad message", some "Value too large for defined data type",
   some "Name not unique on network", some "File descriptor in bad state",
   some "Remote address changed", some "Can not access a needed shared library",
   some "Accessing a corrupted shared library", some ".lib section in a.out corrupted",
   some "Attempting to link in too many shared libraries",
   some "Cannot exec a shared library directly",
   some "Invalid or incomplete multibyte or wide character",
   some "Interrupted system call should be restarted", some "Streams pipe error",
   some "Too many users", some "Socket operation on non-socket",
   some "Destination address required", some "Message too long",
   some "Protocol wrong type for socket", some "Protocol not available",
   some "Protocol not supported", some "Socket type not supported",
   some "Operation not supported", some "Protocol family not supported",
   some "Address family not supported by protocol", some "Address already in use",
   some "Cannot assign requested address", some "Network is down", some "Network is unreachable",
   some "Network dropped connection on reset", some "Software caused connection abort",
   some "Connection reset by peer", some "No buffer space available",
   some "Transport endpoint is already connected", some "Transport endpoint is not connected",
   some "Cannot send after transport endpoint shutdown",
   some "Too many references: cannot splice", some "Connection timed out",
   some "Connection refused", some "Host is down", some "No route to host",
   some "Operation already in progress", some "Operation now in progress",
   some "Stale file handle", some "Structure needs cleaning", some "Not a XENIX named type file",
   some "No XENIX semaphores available", some "Is a named type file", some "Remote I/O error",
   some "Disk quota exceeded", some "No medium found", some "Wrong medium type",
   some "Operation canceled", some "Required key not available", some "Key has expired",
   some "Key has been revoked", some "Key was rejected by service", some "Owner died",
   some "State not recoverable", some "Operation not possible due to RF-kill",
   some "Memory page has hardware error"]

/-- The names of the error numbers from 0 on. -/
def names : List (Option String) :=
  [some "0", some "EPERM", some "ENOENT", some "ESRCH", some "EINTR", some "EIO", some "ENXIO",
   some "E2BIG", some "ENOEXEC", some "EBADF", some "ECHILD", some "EAGAIN", some "ENOMEM",
   some "EACCES", some "EFAULT", some "ENOTBLK", some "EBUSY", some "EEXIST", some "EXDEV",
   some "ENODEV", some "ENOTDIR", some "EISDIR", some "EINVAL", some "ENFILE", some "EMFILE",
   some "ENOTTY", some "ETXTBSY", some "EFBIG", some "ENOSPC", some "ESPIPE", some "EROFS",
   some "EMLINK", some "EPIPE", some "EDOM", some "ERANGE", some "EDEADLK", some "ENAMETOOLONG",
   some "ENOLCK", some "ENOSYS", some "ENOTEMPTY", some "ELOOP", none, some "ENOMSG", some "EIDRM",
   some "ECHRNG", some "EL2NSYNC", some "EL3HLT", some "EL3RST", some "ELNRNG", some "EUNATCH",
   some "ENOCSI", some "EL2HLT", some "EBADE", some "EBADR", some "EXFULL", some "ENOANO",
   some "EBADRQC", some "EBADSLT", none, some "EBFONT", some "ENOSTR", some "ENODATA",
   some "ETIME", some "ENOSR", some "ENONET", some "ENOPKG", some "EREMOTE", some "ENOLINK",
   some "EADV", some "ESRMNT", some "ECOMM", some "EPROTO", some "EMULTIHOP", some "EDOTDOT",
   some "EBADMSG", some "EOVERFLOW", some "ENOTUNIQ", some "EBADFD", some "EREMCHG",
   some "ELIBACC", some "ELIBBAD", some "ELIBSCN", some "ELIBMAX", some "ELIBEXEC", some "EILSEQ",
   some "ERESTART", some "ESTRPIPE", some "EUSERS", some "ENOTSOCK", some "EDESTADDRREQ",
   some "EMSGSIZE", some "EPROTOTYPE", some "ENOPROTOOPT", some "EPROTONOSUPPORT",
   some "ESOCKTNOSUPPORT", some "EOPNOTSUPP", some "EPFNOSUPPORT", some "EAFNOSUPPORT",
   some "EADDRINUSE", some "EADDRNOTAVAIL", some "ENETDOWN", some "ENETUNREACH", some "ENETRESET",
   some "ECONNABORTED", some "ECONNRESET", some "ENOBUFS", some "EISCONN", some "ENOTCONN",
   some "ESHUTDOWN", some "ETOOMANYREFS", some "ETIMEDOUT", some "ECONNREFUSED", some "EHOSTDOWN",
   some "EHOSTUNREACH", some "EALREADY", some "EINPROGRESS", some "ESTALE", some "EUCLEAN",
   some "ENOTNAM", some "ENAVAIL", some "EISNAM", some "EREMOTEIO", some "EDQUOT",
   some "ENOMEDIUM", some "EMEDIUMTYPE", some "ECANCELED", some "ENOKEY", some "EKEYEXPIRED",
   some "EKEYREVOKED", some "EKEYREJECTED", some "EOWNERDEAD", some "ENOTRECOVERABLE",
   some "ERFKILL", some "EHWPOISON"]

/-- The entry of an error number in a table. -/
def lookUp? (table : List (Option String)) (errno : Int) : Option String :=
  if errno < 0 then none else (table[errno.toNat]?).join

/-- The name of an error number, if it has one. Success has a digit for its name. -/
def name? (errno : Int) : Option String := lookUp? names errno

/-- The text of an error number. -/
def text (errno : Int) : String :=
  (lookUp? texts errno).getD ("Unknown error " ++ toString errno)

end FormattedOutput.Errno
