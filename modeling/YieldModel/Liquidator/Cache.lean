import YieldModel.Liquidator.Basic

namespace YieldLiquidator.ImmutableCache

variable (node : Node)

def getOrFetchBaseId (seriesId : SeriesIdType) : Bot BaseIdType := do
  let k ← get
  if seriesId ∉ k.cache.seriesToBase then
    let series ← Prog.ofResult (node.series seriesId)
    Bot.modifyCache fun c =>
      { c with seriesToBase := c.seriesToBase.insert seriesId series.baseId }
  let k ← get
  Prog.ofOption "can't find data for series" (k.cache.seriesToBase.lookup seriesId)

open Prog in
theorem getOrFetchBaseId_cached {node : Node} {k : Keeper} {series : SeriesIdType}
    {base : BaseIdType} (h : k.cache.seriesToBase.lookup series = some base) :
    (getOrFetchBaseId node series).exec k = (.ok base, k) := by
  have hm : series ∈ k.cache.seriesToBase := Finmap.mem_of_lookup_eq_some h
  simp [getOrFetchBaseId, exec_bind, hm, h, ofOption]

def getOrFetchAssetAddress (assetId : AssetIdType) : Bot Address := do
  let k ← get
  if assetId ∉ k.cache.assetIdToAddress then
    let asset ← Prog.ofResult (node.assets assetId)
    Bot.modifyCache fun c =>
      { c with assetIdToAddress := c.assetIdToAddress.insert assetId asset }
  let k ← get
  Prog.ofOption "can't find data for asset" (k.cache.assetIdToAddress.lookup assetId)

def isVaultIgnored (seriesId : SeriesIdType) (ilkId : IlkIdType) (debt : U128) : Bot Bool := do
  let baseId ← getOrFetchBaseId node seriesId
  if baseId = ilkId then
    return true
  let k ← get
  match k.cache.baseToDebtThreshold.lookup baseId with
  | some threshold => return decide (debt < threshold)
  | none           => return false

end YieldLiquidator.ImmutableCache
