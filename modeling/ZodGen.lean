import ZodGen.Main
import ZodGen.Storage.Memory
import ZodGen.Schema.Session
import ZodGen.Proofs.Liveness
import ZodGen.Proofs.Marking
import ZodGen.Proofs.References
import ZodGen.Proofs.SchemaRule
import ZodGen.Proofs.CompileCongr
import ZodGen.Proofs.SplitReach
import ZodGen.Proofs.PathDocument
import ZodGen.Proofs.SplitCompile
import ZodGen.Proofs.ReferenceNames
import ZodGen.Proofs.PointerNames
import ZodGen.Proofs.SelfContained
import ZodGen.Proofs.CutText
import ZodGen.Proofs.ModuleText
import ZodGen.Proofs.TreeShaking
import ZodGen.Proofs.Rendering
import ZodGen.Proofs.PathNeeds
import ZodGen.Proofs.CutFrame
import ZodGen.Proofs.PruneTwice
import ZodGen.Proofs.CommandRun
import ZodGen.Proofs.MemoryFiles
import ZodGen.Proofs.PathFiles
import ZodGen.Proofs.JsonText
import ZodGen.Proofs.Skeleton
import ZodGen.Proofs.CallChain
import ZodGen.Proofs.NormalForm
import ZodGen.Proofs.UniqueReading
import ZodGen.Proofs.Calls
import ZodGen.Proofs.Session
import ZodGen.Proofs.Causes
import ZodGen.Proofs.DeclaredOnce
import ZodGen.Proofs.SplitStable
import ZodGen.Proofs.Descent
import ZodGen.Proofs.TaggedUnions
import ZodGen.Proofs.Circularity
import ZodGen.Proofs.NodeMaps
import ZodGen.Proofs.TwoRuns
import ZodGen.Proofs.Coercion
import ZodGen.Proofs.Merging
import ZodGen.Proofs.Inlining
import ZodGen.Proofs.RequiredNames
import ZodGen.Proofs.OperationParts
import ZodGen.Proofs.ParameterGroups
import ZodGen.Proofs.RequestVariants
import ZodGen.Proofs.IdentifierNames
import ZodGen.Proofs.ConstantScript
import ZodGen.Proofs.NameHomes
import ZodGen.Proofs.ParserOrder
import ZodGen.Proofs.DeclaratorOrder
import ZodGen.Proofs.NeededNames
import ZodGen.Proofs.Owners
import ZodGen.Proofs.UsePlaces
import ZodGen.Proofs.Charges
import ZodGen.Proofs.ReferenceChains
import ZodGen.Proofs.Decimals
import ZodGen.Proofs.NodePointers
import ZodGen.Proofs.SplitFailure
import ZodGen.Proofs.ResponseKeys
import ZodGen.Proofs.SchemaPointers
import ZodGen.Proofs.Positions
