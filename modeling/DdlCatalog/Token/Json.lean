import DdlCatalog.Json
import DdlCatalog.Token

namespace DdlCatalog

namespace Token

def toJson (token : Token) : Json :=
  .record
    [("content", .ofString token.content),
     ("kind", .ofString token.kind.name),
     ("start", .ofNat token.start),
     ("end", .ofNat token.stop),
     ("line_start", .ofNat token.firstLine.toNat),
     ("line_end", .ofNat token.lastLine.toNat)]

end Token

end DdlCatalog
