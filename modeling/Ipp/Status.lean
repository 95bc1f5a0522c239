/-!
# Status codes

The outcome that a reply reports.
-/

namespace Ipp

abbrev Status := UInt16

namespace Status

def ok : Status := 0x0000
def okIgnoredOrSubstituted : Status := 0x0001
def badRequest : Status := 0x0400
def forbidden : Status := 0x0401
def notFound : Status := 0x0406
def documentFormatNotSupported : Status := 0x040A
def attributesOrValuesNotSupported : Status := 0x040B
def charsetNotSupported : Status := 0x040D
def internalError : Status := 0x0500
def operationNotSupported : Status := 0x0501
def versionNotSupported : Status := 0x0503

-- The codes that have a keyword, with their keywords.
def registry : List (Status × String) :=
  [(ok, "successful-ok"),
   (okIgnoredOrSubstituted, "successful-ok-ignored-or-substituted-attributes"),
   (badRequest, "client-error-bad-request"),
   (forbidden, "client-error-forbidden"),
   (notFound, "client-error-not-found"),
   (documentFormatNotSupported, "client-error-document-format-not-supported"),
   (attributesOrValuesNotSupported, "client-error-attributes-or-values-not-supported"),
   (charsetNotSupported, "client-error-charset-not-supported"),
   (internalError, "server-error-internal-error"),
   (operationNotSupported, "server-error-operation-not-supported"),
   (versionNotSupported, "server-error-version-not-supported")]

def keyword? (s : Status) : Option String :=
  registry.lookup s

end Status
end Ipp
