import AtomicGrid.Config
import AtomicGrid.Data.Values
import AtomicGrid.Update

/-!
# Configurations and updates as plain data

What a configuration does not mention is as in the default configuration of node 1.
-/

set_option autoImplicit false

namespace AtomicGrid

open Data (named pick)

instance : OfData AtomicSettings where
  ofData d :=
    let a : AtomicSettings := {}
    { writeSyncMode := d.getOr "sync" a.writeSyncMode
      remapCount := d.getOr "remap_count" a.remapCount
      waitForTopology := d.getOr "wait" a.waitForTopology
      nearRelay := d.getOr "relay" a.nearRelay
      sendMapping := d.getOr "send_mapping" a.sendMapping
      partitions := d.getOr "partitions" a.partitions
      backups := d.getOr "backups" a.backups
      nearCache := d.getOr "near_cache" a.nearCache }

instance : OfData Config where
  ofData d :=
    let c : Config := { nodeId := 1 }
    { nodeId := d.getOr "node_id" c.nodeId
      cacheName := d.getOr "cache_name" c.cacheName
      atomic := ofData d
      logLevel := d.getOr "log_level" c.logLevel }

instance : ToData Config where
  toData c :=
    let a := c.atomic
    named ["node_id", "cache_name", "cache_id", "sync", "remap_count", "wait", "relay",
      "send_mapping", "partitions", "backups", "near_cache", "log_level"]
      (c.nodeId, c.cacheName, c.cacheId, a.writeSyncMode, a.remapCount, a.waitForTopology,
        a.nearRelay, a.sendMapping, a.partitions, a.backups, a.nearCache, c.logLevel)

instance : OfData ConfigOverrides where
  ofData d :=
    let (a, b, c, e) := pick ["log_level", "node_id", "sync", "remap_count"] d
    ⟨a, b, c, e⟩

instance : OfData Update where
  ofData x :=
    let (a, b, c, d, e, f, g, h, i, j, k, l, m, n) := pick ["operation", "key", "value",
      "processor", "args", "filters", "expiry", "sync", "return_value", "raw", "locked",
      "skip_store", "keep_binary", "task"] x
    ⟨a, b, c, d, e, f, g, h, i, j, k, l, m, n⟩

end AtomicGrid
