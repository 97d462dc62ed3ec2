import Mathlib.Data.Int.Order.Basic

/-!
# `lkl_set_errno`

The system calls of LKL return a negative error number, which `lkl_set_errno` translates to the
`errno` of the host in one `switch`. The switch has no default: a negative result that has no case
returns `-1` and leaves `errno` alone.

## Main definitions

* `Errno`: the error numbers that have a case
* `lklSetErrno`: the translation
* `Reported`: the results that it translates

## Main results

* `reported_iff`: which results are translated, as numbers
* `lklSetErrno_of_reported`, `lklSetErrno_of_not_reported`: what the translation does
-/

namespace LklSocks

/-- The error numbers in the switch of `lkl_set_errno`. -/
inductive Errno
  | EPERM | ENOENT | ESRCH | EINTR | EIO | ENXIO | E2BIG | ENOEXEC | EBADF | ECHILD | EAGAIN
  | ENOMEM | EACCES | EFAULT | ENOTBLK | EBUSY | EEXIST | EXDEV | ENODEV | ENOTDIR | EISDIR
  | EINVAL | ENFILE | EMFILE | ENOTTY | ETXTBSY | EFBIG | ENOSPC | ESPIPE | EROFS | EMLINK
  | EPIPE | EDOM | ERANGE | EDEADLK | ENAMETOOLONG | ENOLCK | ENOSYS | ENOTEMPTY | ELOOP | ENOMSG
  | EIDRM | ECHRNG | EL2NSYNC | EL3HLT | EL3RST | ELNRNG | EUNATCH | ENOCSI | EL2HLT | EBADE
  | EBADR | EXFULL | ENOANO | EBADRQC | EBADSLT | EBFONT | ENOSTR | ENODATA | ETIME | ENOSR
  | ENONET | ENOPKG | EREMOTE | ENOLINK | EADV | ESRMNT | ECOMM | EPROTO | EMULTIHOP | EDOTDOT
  | EBADMSG | EOVERFLOW | ENOTUNIQ | EBADFD | EREMCHG | ELIBACC | ELIBBAD | ELIBSCN | ELIBMAX
  | ELIBEXEC | EILSEQ | ERESTART | ESTRPIPE | EUSERS | ENOTSOCK | EDESTADDRREQ | EMSGSIZE
  | EPROTOTYPE | ENOPROTOOPT | EPROTONOSUPPORT | ESOCKTNOSUPPORT | EOPNOTSUPP | EPFNOSUPPORT
  | EAFNOSUPPORT | EADDRINUSE | EADDRNOTAVAIL | ENETDOWN | ENETUNREACH | ENETRESET | ECONNABORTED
  | ECONNRESET | ENOBUFS | EISCONN | ENOTCONN | ESHUTDOWN | ETOOMANYREFS | ETIMEDOUT
  | ECONNREFUSED | EHOSTDOWN | EHOSTUNREACH | EALREADY | EINPROGRESS | ESTALE | EUCLEAN | ENOTNAM
  | ENAVAIL | EISNAM | EREMOTEIO | EDQUOT | ENOMEDIUM | EMEDIUMTYPE | ECANCELED | ENOKEY
  | EKEYEXPIRED | EKEYREVOKED | EKEYREJECTED | EOWNERDEAD | ENOTRECOVERABLE | ERFKILL | EHWPOISON
  deriving DecidableEq, Repr

namespace Errno

/-- The number of an error, which is the same on the host and in LKL: both are Linux. -/
def value : Errno → ℕ
  | EPERM => 1 | ENOENT => 2 | ESRCH => 3 | EINTR => 4 | EIO => 5 | ENXIO => 6 | E2BIG => 7
  | ENOEXEC => 8 | EBADF => 9 | ECHILD => 10 | EAGAIN => 11 | ENOMEM => 12 | EACCES => 13
  | EFAULT => 14 | ENOTBLK => 15 | EBUSY => 16 | EEXIST => 17 | EXDEV => 18 | ENODEV => 19
  | ENOTDIR => 20 | EISDIR => 21 | EINVAL => 22 | ENFILE => 23 | EMFILE => 24 | ENOTTY => 25
  | ETXTBSY => 26 | EFBIG => 27 | ENOSPC => 28 | ESPIPE => 29 | EROFS => 30 | EMLINK => 31
  | EPIPE => 32 | EDOM => 33 | ERANGE => 34 | EDEADLK => 35 | ENAMETOOLONG => 36 | ENOLCK => 37
  | ENOSYS => 38 | ENOTEMPTY => 39 | ELOOP => 40 | ENOMSG => 42 | EIDRM => 43 | ECHRNG => 44
  | EL2NSYNC => 45 | EL3HLT => 46 | EL3RST => 47 | ELNRNG => 48 | EUNATCH => 49 | ENOCSI => 50
  | EL2HLT => 51 | EBADE => 52 | EBADR => 53 | EXFULL => 54 | ENOANO => 55 | EBADRQC => 56
  | EBADSLT => 57 | EBFONT => 59 | ENOSTR => 60 | ENODATA => 61 | ETIME => 62 | ENOSR => 63
  | ENONET => 64 | ENOPKG => 65 | EREMOTE => 66 | ENOLINK => 67 | EADV => 68 | ESRMNT => 69
  | ECOMM => 70 | EPROTO => 71 | EMULTIHOP => 72 | EDOTDOT => 73 | EBADMSG => 74
  | EOVERFLOW => 75 | ENOTUNIQ => 76 | EBADFD => 77 | EREMCHG => 78 | ELIBACC => 79
  | ELIBBAD => 80 | ELIBSCN => 81 | ELIBMAX => 82 | ELIBEXEC => 83 | EILSEQ => 84
  | ERESTART => 85 | ESTRPIPE => 86 | EUSERS => 87 | ENOTSOCK => 88 | EDESTADDRREQ => 89
  | EMSGSIZE => 90 | EPROTOTYPE => 91 | ENOPROTOOPT => 92 | EPROTONOSUPPORT => 93
  | ESOCKTNOSUPPORT => 94 | EOPNOTSUPP => 95 | EPFNOSUPPORT => 96 | EAFNOSUPPORT => 97
  | EADDRINUSE => 98 | EADDRNOTAVAIL => 99 | ENETDOWN => 100 | ENETUNREACH => 101
  | ENETRESET => 102 | ECONNABORTED => 103 | ECONNRESET => 104 | ENOBUFS => 105 | EISCONN => 106
  | ENOTCONN => 107 | ESHUTDOWN => 108 | ETOOMANYREFS => 109 | ETIMEDOUT => 110
  | ECONNREFUSED => 111 | EHOSTDOWN => 112 | EHOSTUNREACH => 113 | EALREADY => 114
  | EINPROGRESS => 115 | ESTALE => 116 | EUCLEAN => 117 | ENOTNAM => 118 | ENAVAIL => 119
  | EISNAM => 120 | EREMOTEIO => 121 | EDQUOT => 122 | ENOMEDIUM => 123 | EMEDIUMTYPE => 124
  | ECANCELED => 125 | ENOKEY => 126 | EKEYEXPIRED => 127 | EKEYREVOKED => 128
  | EKEYREJECTED => 129 | EOWNERDEAD => 130 | ENOTRECOVERABLE => 131 | ERFKILL => 132
  | EHWPOISON => 133

/-- The cases of the switch, in its order. -/
def all : List Errno :=
  [EPERM, ENOENT, ESRCH, EINTR, EIO, ENXIO, E2BIG, ENOEXEC, EBADF, ECHILD, EAGAIN, ENOMEM, EACCES,
   EFAULT, ENOTBLK, EBUSY, EEXIST, EXDEV, ENODEV, ENOTDIR, EISDIR, EINVAL, ENFILE, EMFILE, ENOTTY,
   ETXTBSY, EFBIG, ENOSPC, ESPIPE, EROFS, EMLINK, EPIPE, EDOM, ERANGE, EDEADLK, ENAMETOOLONG,
   ENOLCK, ENOSYS, ENOTEMPTY, ELOOP, ENOMSG, EIDRM, ECHRNG, EL2NSYNC, EL3HLT, EL3RST, ELNRNG,
   EUNATCH, ENOCSI, EL2HLT, EBADE, EBADR, EXFULL, ENOANO, EBADRQC, EBADSLT, EBFONT, ENOSTR,
   ENODATA, ETIME, ENOSR, ENONET, ENOPKG, EREMOTE, ENOLINK, EADV, ESRMNT, ECOMM, EPROTO, EMULTIHOP,
   EDOTDOT, EBADMSG, EOVERFLOW, ENOTUNIQ, EBADFD, EREMCHG, ELIBACC, ELIBBAD, ELIBSCN, ELIBMAX,
   ELIBEXEC, EILSEQ, ERESTART, ESTRPIPE, EUSERS, ENOTSOCK, EDESTADDRREQ, EMSGSIZE, EPROTOTYPE,
   ENOPROTOOPT, EPROTONOSUPPORT, ESOCKTNOSUPPORT, EOPNOTSUPP, EPFNOSUPPORT, EAFNOSUPPORT,
   EADDRINUSE, EADDRNOTAVAIL, ENETDOWN, ENETUNREACH, ENETRESET, ECONNABORTED, ECONNRESET, ENOBUFS,
   EISCONN, ENOTCONN, ESHUTDOWN, ETOOMANYREFS, ETIMEDOUT, ECONNREFUSED, EHOSTDOWN, EHOSTUNREACH,
   EALREADY, EINPROGRESS, ESTALE, EUCLEAN, ENOTNAM, ENAVAIL, EISNAM, EREMOTEIO, EDQUOT, ENOMEDIUM,
   EMEDIUMTYPE, ECANCELED, ENOKEY, EKEYEXPIRED, EKEYREVOKED, EKEYREJECTED, EOWNERDEAD,
   ENOTRECOVERABLE, ERFKILL, EHWPOISON]

end Errno

/-- The case of the switch that `err` takes. -/
def lklCase (err : ℤ) : Option Errno := Errno.all.find? fun e => err = -(e.value : ℤ)

/-- `lkl_set_errno`: the result, and the value of `errno` after it. -/
def lklSetErrno (err errno : ℤ) : ℤ × ℤ :=
  if 0 ≤ err then (err, errno)
  else
    match lklCase err with
    | some e => (-1, e.value)
    | none => (-1, errno)

/-- A result that `lkl_set_errno` translates: it is no error, or it has a case. -/
def Reported (r : ℤ) : Prop := r < 0 → (lklCase r).isSome = true

instance (r : ℤ) : Decidable (Reported r) := inferInstanceAs (Decidable (_ → _))

theorem Errno.value_range (e : Errno) :
    0 < e.value ∧ e.value ≤ 133 ∧ e.value ≠ 41 ∧ e.value ≠ 58 := by
  cases e <;> decide

/-- The case that a result takes is its own. -/
theorem eq_of_lklCase {r : ℤ} {e : Errno} (h : lklCase r = some e) : r = -(e.value : ℤ) := by
  have hp := List.find?_some h
  exact of_decide_eq_true hp

theorem isSome_lklCase {n : ℕ} (hn : n < 134) (h₀ : 0 < n) (h₄₁ : n ≠ 41) (h₅₈ : n ≠ 58) :
    (lklCase (-(n : ℤ))).isSome = true := by
  have h : ∀ n : ℕ, n < 134 → 0 < n → n ≠ 41 → n ≠ 58 → (lklCase (-(n : ℤ))).isSome = true := by
    decide +kernel
  exact h n hn h₀ h₄₁ h₅₈

/-- **The results that are translated**, as numbers: the errors from 1 to 133, of which Linux does
not use 41 and 58. -/
theorem reported_iff (r : ℤ) : Reported r ↔ 0 ≤ r ∨ (-133 ≤ r ∧ r ≠ -41 ∧ r ≠ -58) := by
  constructor
  · intro h
    by_cases hr : r < 0
    · obtain ⟨e, he⟩ := Option.isSome_iff_exists.mp (h hr)
      have hv := e.value_range
      have heq := eq_of_lklCase he
      omega
    · exact .inl (not_lt.mp hr)
  · rintro h hr
    obtain ⟨n, rfl⟩ : ∃ n : ℕ, r = -(n : ℤ) := ⟨r.natAbs, by omega⟩
    exact isSome_lklCase (by omega) (by omega) (by omega) (by omega)

theorem lklSetErrno_of_nonneg {r : ℤ} (h : 0 ≤ r) (errno : ℤ) : lklSetErrno r errno = (r, errno) :=
  if_pos h

/-- A failure that is translated sets `errno` to its number. -/
theorem lklSetErrno_of_reported {r : ℤ} (hr : r < 0) (h : Reported r) (errno : ℤ) :
    lklSetErrno r errno = (-1, -r) := by
  obtain ⟨e, he⟩ := Option.isSome_iff_exists.mp (h hr)
  rw [lklSetErrno, if_neg (not_le.mpr hr), he, eq_of_lklCase he, Int.neg_neg]

/-- A failure that has no case leaves `errno` as it was. -/
theorem lklSetErrno_of_not_reported {r : ℤ} (h : ¬ Reported r) (errno : ℤ) :
    lklSetErrno r errno = (-1, errno) := by
  obtain ⟨hr, hnone⟩ := Classical.not_imp.mp h
  rw [lklSetErrno, if_neg (not_le.mpr hr), Option.not_isSome_iff_eq_none.mp hnone]

end LklSocks
