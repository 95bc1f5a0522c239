/-!
# Log

What an exchange reports while it runs, in order: every warning and every error, the keywords of
`requested-attributes` that are not implemented, and the request itself where requests are traced. Reports
of unknown keywords that stand next to one another have no order of their own, and are kept in order of the
keywords.

Reports that only accompany a step are left out: that an operation is dispatched and answered, what stands
in a header, a group or an attribute as it is read and in a value as it is written, what is not supported,
what was classified, whose request it is, and that a request was refused, forwarded, replied to or its
document received. What the channel reports of its own work is kept apart, in `Channel.Event`.
-/

namespace Ipp

inductive Level where
  | debug
  | warn
  | error
  deriving DecidableEq, Repr

structure LogEvent where
  level : Level
  message : String
  fields : List (String × String) := []
  deriving DecidableEq, Repr

namespace LogEvent

-- A keyword of `requested-attributes` that no operation has asked about.
def notImplemented (keyword : String) : LogEvent :=
  { level := .debug
    message := "requested attribute not implemented"
    fields := [("attribute", keyword)] }

-- The keyword that an event reports as not implemented.
def keyword? (event : LogEvent) : Option String :=
  match event.fields with
  | [(_, keyword)] => if event = notImplemented keyword then some keyword else none
  | _ => none

theorem keyword?_eq_some_iff {event : LogEvent} {keyword : String} :
    event.keyword? = some keyword ↔ event = notImplemented keyword := by
  constructor
  · intro h
    unfold keyword? at h
    split at h
    · split at h
      · obtain rfl := Option.some.inj h
        assumption
      · contradiction
    · contradiction
  · rintro rfl
    simp [keyword?, notImplemented]

/-- A log with reports of more keywords at its end. Reports that follow one another are in order of the
code points of their keywords, whichever call they come from. -/
def reportKeywords (keywords : List String) (log : List LogEvent) : List LogEvent :=
  let newestFirst := log.reverse
  let run := (newestFirst.takeWhile (·.keyword?.isSome)).filterMap keyword?
  (newestFirst.dropWhile (·.keyword?.isSome)).reverse ++
    ((run ++ keywords).mergeSort fun a b => !(b < a)).map notImplemented

end LogEvent
end Ipp
