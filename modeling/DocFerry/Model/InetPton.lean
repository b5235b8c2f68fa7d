import DocFerry.Lib.InetPrint
import DocFerry.Model.CpSocket

/-!
# `cp_inet_pton` and `cp_inet_ntop` on the two systems

Linux reads a host with `inet_pton` and prints it with `inet_ntop`, Windows with `inet_addr` and
`inet_ntoa`. An address is the number that the bytes of `sin_addr` are in network order.
-/

namespace DocFerry

/-- `INADDR_ANY` -/
def inaddrAny : UInt32 := 0

/-- `INADDR_NONE` -/
def inaddrNone : UInt32 := 0xFFFFFFFF

/-- `inet_addr` -/
def inetAddr (p_host : String) : UInt32 := (Inet.aton p_host.toList).getD inaddrNone

/-- `inet_pton` for `AF_INET`: the result, and the address, which stays as it was on failure. -/
def inetPton (p_host : String) (s_addr : UInt32) : ℤ × UInt32 :=
  match Inet.pton p_host.toList with
  | some addr => (1, addr)
  | none => (0, s_addr)

/-- `cp_inet_pton` on Windows, `s_addr` being the address before the call. -/
def cpInetPtonWindows (p_host : Option String) (_s_addr : UInt32) : ℤ × UInt32 :=
  match p_host with
  | none => (1, inaddrAny)
  | some host =>
    if host = "0.0.0.0" then (1, inaddrAny)
    else
      let s_addr := inetAddr host
      if s_addr = inaddrAny then (0, inaddrNone)
      else if s_addr = inaddrNone then (-1, s_addr)
      else (1, s_addr)

/-- `cp_inet_pton` on Linux. -/
def cpInetPtonLinux (p_host : Option String) (s_addr : UInt32) : ℤ × UInt32 :=
  match p_host with
  | none => (1, inaddrAny)
  | some host =>
    if host = "0.0.0.0" then (1, inaddrAny)
    else inetPton host s_addr

/-- `inet_ntop` for `AF_INET` into `len` bytes; `none` is the null pointer. -/
def inetNtop (s_addr : UInt32) (len : ℕ) : Option String :=
  if len < (Inet.ntop s_addr).length + 1 then none else some (.ofList (Inet.ntop s_addr))

/-- `strncpy_s` of `text` into `len` bytes, of which it takes at most `count` characters. -/
def strncpyS (len : ℕ) (text : List Char) (count : ℕ) : Except Fault String :=
  if min text.length count + 1 ≤ len then .ok (.ofList (text.take count))
  else .error (.outside 0 (min text.length count + 1))

/-- `cp_inet_ntop` on Windows: `dst` has `len` bytes. -/
def cpInetNtopWindows (src : Option UInt32) (dst : Bool) (len : ℕ) : Except Fault (Option String) :=
  match src with
  | none => .ok none
  | some s_addr =>
    if dst = false then .ok none
    else (strncpyS len (Inet.ntop s_addr) len).map some

/-- `cp_inet_ntop` on Linux. -/
def cpInetNtopLinux (src : Option UInt32) (dst : Bool) (len : ℕ) : Option String :=
  match src with
  | none => none
  | some s_addr => if dst = false then none else inetNtop s_addr len

/-- The system with the `cp_inet_pton` of Windows. -/
def Env.onWindows (E : Env) : Env :=
  { E with inet_pton := fun host => (cpInetPtonWindows (some host) 0).1 }

/-- The system with the `cp_inet_pton` of Linux. -/
def Env.onLinux (E : Env) : Env := { E with inet_pton := fun host => (inetPton host 0).1 }

end DocFerry
