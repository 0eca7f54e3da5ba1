import PyQgisServer.Cache.Refresh
import PyQgisServer.Library.PyStr

namespace QgsCache

open Urllib PyStr

namespace CacheManager

variable {P : Type} (env : Tables) (s : Store P)

end CacheManager

section outcome

variable {P : Type} {env : Tables} {s : Store P} {m : CacheManager P}

section isolates

variable (env : Tables) (s : Store P) (decode : List UInt8 → Option Str) (confFile : ConfFile)
  (m : CacheManager P)

end isolates

end outcome

end QgsCache
