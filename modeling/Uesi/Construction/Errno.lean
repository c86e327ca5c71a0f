namespace Uesi

/-- The error numbers that the modelled functions return, negated in the source. -/
inductive Errno where
  | eperm
  | enoent
  | esrch
  | eintr
  | ebadf
  | enomem
  | efault
  | eexist
  | enotdir
  | eisdir
  | einval
  | emfile
  | enametoolong
  | eloop
  | enotempty
  | enodev
  | enotsup
  deriving DecidableEq, Repr

end Uesi
