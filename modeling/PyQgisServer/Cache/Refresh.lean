import PyQgisServer.Cache.Version
import PyQgisServer.Library.Sweep

namespace QgsCache

open Urllib

section current

variable {P : Type} (env : Tables) (s : Store P)

end current

variable {P : Type} {env : Tables} {s : Store P}

namespace CacheManager

section refresh

variable (env : Tables) (s : Store P)

def refreshStatic (m : CacheManager P) (key : Str) : Except CacheError Unit × CacheManager P :=
  let r := m.updateStaticEntry env s key
  (r.1.map fun _ => (), r.2)

-- the static pass is done at once; the keys are those of the generator it returns
def refresh (m : CacheManager P) : Except CacheError (List Str) × CacheManager P :=
  match Sweep.forEach (refreshStatic env s) m m.static.keys with
  | (.error e, m) => (.error e, m)
  | (.ok (), m) => (.ok m.lru.tableKeys, m)

end refresh

section static

variable {m : AliasTable} {n : CacheManager P} {key : Str}

end static

end CacheManager

end QgsCache
