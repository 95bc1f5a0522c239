/-!
# Operations

The operations that a request can ask for, by number and by name.
-/

namespace Ipp.Operation

def registry : List (String × UInt16) :=
  [("Print-Job", 0x0002),
   ("Print-URI", 0x0003),
   ("Validate-Job", 0x0004),
   ("Create-Job", 0x0005),
   ("Send-Document", 0x0006),
   ("Send-URI", 0x0007),
   ("Cancel-Job", 0x0008),
   ("Get-Job-Attributes", 0x0009),
   ("Get-Jobs", 0x000A),
   ("Get-Printer-Attributes", 0x000B),
   ("Hold-Job", 0x000C),
   ("Release-Job", 0x000D),
   ("Restart-Job", 0x000E),
   ("Pause-Printer", 0x0010),
   ("Resume-Printer", 0x0011),
   ("Purge-Jobs", 0x0012),
   ("Set-Printer-Attributes", 0x0013),
   ("Set-Job-Attributes", 0x0014),
   ("Get-Printer-Supported-Values", 0x0015),
   ("CUPS-Get-Default", 0x4001),
   ("CUPS-Get-Printers", 0x4002),
   ("CUPS-Add-Printer", 0x4003),
   ("CUPS-Delete-Printer", 0x4004),
   ("CUPS-Get-Classes", 0x4005),
   ("CUPS-Add-Class", 0x4006),
   ("CUPS-Delete-Class", 0x4007),
   ("CUPS-Accept-Jobs", 0x4008),
   ("CUPS-Reject-Jobs", 0x4009),
   ("CUPS-Set-Default", 0x400A),
   ("CUPS-Get-Devices", 0x400B),
   ("CUPS-Get-PPDs", 0x400C),
   ("CUPS-Move-Job", 0x400D)]

def title (id : UInt16) : String :=
  ((registry.find? (·.2 == id)).map (·.1)).getD "unknown"

def ofTitle? (s : String) : Option UInt16 :=
  registry.lookup s

end Ipp.Operation
