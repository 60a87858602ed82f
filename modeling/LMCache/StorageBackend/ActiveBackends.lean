import LMCache.Foundations.Dict

namespace LMCache

structure BackendTable (β : Type) where
  storageBackends : Dict String β
  freeze : Bool
  bypassedBackends : List String

namespace BackendTable

variable {β : Type} (table : BackendTable β) (location : Option String)
  (searchRange : Option (List String))

def isActive (backendName : String) : Bool :=
  (!table.freeze || backendName == "LocalCPUBackend") &&
    !table.bypassedBackends.contains backendName &&
    (location.all fun l => l == "" || backendName == l) &&
    (searchRange.all fun names => names.isEmpty || names.contains backendName)

def getActiveStorageBackends : List (String × β) :=
  table.storageBackends.items.filter fun p => table.isActive location searchRange p.1

theorem active_nodup : ((table.getActiveStorageBackends location searchRange).map Prod.fst).Nodup :=
  table.storageBackends.nodup.sublist (List.filter_sublist.map _)

end BackendTable

end LMCache
