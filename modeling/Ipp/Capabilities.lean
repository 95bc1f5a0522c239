/-!
# Capabilities

What an operation works on, which decides which of the well-known attributes it understands.
-/

namespace Ipp

structure Capabilities where
  -- Works on one existing printer.
  printer : Bool := false
  -- Lists printers.
  printers : Bool := false
  -- Works on one job.
  job : Bool := false
  -- Lists jobs.
  jobs : Bool := false
  -- Lists devices.
  devices : Bool := false
  -- Lists driver files.
  ppds : Bool := false
  -- Makes or changes a printer.
  pcreate : Bool := false
  deriving DecidableEq, Repr

namespace Capabilities

def union (c d : Capabilities) : Capabilities :=
  { printer := c.printer || d.printer
    printers := c.printers || d.printers
    job := c.job || d.job
    jobs := c.jobs || d.jobs
    devices := c.devices || d.devices
    ppds := c.ppds || d.ppds
    pcreate := c.pcreate || d.pcreate }

def intersects (c d : Capabilities) : Bool :=
  c.printer && d.printer || c.printers && d.printers || c.job && d.job || c.jobs && d.jobs ||
    c.devices && d.devices || c.ppds && d.ppds || c.pcreate && d.pcreate

def registry : List (String × Capabilities) :=
  [("printer", { printer := true }),
   ("printers", { printers := true }),
   ("job", { job := true }),
   ("jobs", { jobs := true }),
   ("devices", { devices := true }),
   ("ppds", { ppds := true }),
   ("pcreate", { pcreate := true })]

def ofNames (names : List String) : Capabilities :=
  (names.filterMap fun name => registry.lookup name).foldl union {}

end Capabilities
end Ipp
