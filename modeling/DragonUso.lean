import DragonUso.Library.Align
import DragonUso.Library.ByteOrder
import DragonUso.Library.SparseFile
import DragonUso.Library.Packing
import DragonUso.Library.PatchSet
import DragonUso.Library.WordMemory
import DragonUso.Library.SortedSearch
import DragonUso.Library.DoubleList
import DragonUso.Library.Runs
import DragonUso.Library.UseCount
import DragonUso.Library.Regions
import DragonUso.Library.Reordering
import DragonUso.Library.Peeling
import DragonUso.Library.Ledger
import DragonUso.Library.Caches
import DragonUso.Library.CountedLoop
import DragonUso.Library.Records
import DragonUso.Format
import DragonUso.ElfFile
import DragonUso.ToolCollect
import DragonUso.ToolWriter
import DragonUso.LoaderImage
import DragonUso.WriterLayout
import DragonUso.RoundedOffsets
import DragonUso.FileLayout
import DragonUso.RoundTrip
import DragonUso.NoloadLayout
import DragonUso.SectionAlignment
import DragonUso.Relocation
import DragonUso.HiLoPair
import DragonUso.Linking
import DragonUso.SymbolSearch
import DragonUso.Loader
import DragonUso.HandleList
import DragonUso.LoaderSteps
import DragonUso.OpenBinding
import DragonUso.ListConsistency
import DragonUso.ImportsAlive
import DragonUso.Unloading
import DragonUso.UseTest
import DragonUso.CollectedTables
import DragonUso.ProducedFile
import DragonUso.WeakImports
import DragonUso.RelocSafety
import DragonUso.RelocBinding
import DragonUso.CloseFaults
import DragonUso.MakeGlobalSyms
import DragonUso.GlobalTable
import DragonUso.ExportLookup
import DragonUso.HiLoSplit
import DragonUso.SectionPlacement
import DragonUso.InPlace
import DragonUso.InPlaceLinking
import DragonUso.HeldImage
import DragonUso.InPlaceFixups
import DragonUso.FixedImage
import DragonUso.InPlaceLoading
import DragonUso.TableAreas
import DragonUso.AppliedRelocs
import DragonUso.ElfLinking
import DragonUso.Isolation
import DragonUso.PointerLookup
import DragonUso.ImportCoherence
import DragonUso.CrossLinking
import DragonUso.Progress
import DragonUso.StartStop
import DragonUso.LifeCycle
import DragonUso.Reinitialization
import DragonUso.Draining
import DragonUso.Resources
import DragonUso.CacheCoherence
import DragonUso.MakeUsoExterns
import DragonUso.SymbolReadBack
import DragonUso.ExternClosure
import DragonUso.SymbolOrder
import DragonUso.NameLinker
import DragonUso.NameRefinement
import DragonUso.LoadOrder
import DragonUso.Loadability
import DragonUso.BuildClosure
import DragonUso.ScopedLoads
import DragonUso.Callbacks
import DragonUso.CallbackSafety
