import ClassStub.Files.Disk
import ClassStub.Main
import ClassStub.Proofs.ClassFormat
import ClassStub.Proofs.StubRuns
import ClassStub.Proofs.StubCode
import ClassStub.Proofs.StubCheck
import ClassStub.Proofs.StubFormat
import ClassStub.Proofs.BodilessMethods
import ClassStub.Proofs.BodyIndependence
import ClassStub.Proofs.Streaming
import ClassStub.Proofs.Restubbing
import ClassStub.Proofs.DirectoryStubbing
import ClassStub.Proofs.PoolRequests
import ClassStub.Proofs.PoolRuns
import ClassStub.Proofs.UniqueEntries
import ClassStub.Proofs.DescriptorGrammar
import ClassStub.Proofs.TextFormat
import ClassStub.Proofs.Surrogates
import ClassStub.Proofs.TextGroups
import ClassStub.Proofs.MethodRuns
import ClassStub.Proofs.StubSpace
import ClassStub.Proofs.StubErrors
import ClassStub.Proofs.InitializerPolicies
import ClassStub.Proofs.StableIndices
import ClassStub.Proofs.MethodTables
import ClassStub.Proofs.ReadableClasses
import ClassStub.Proofs.ReferenceChains
import ClassStub.Proofs.Extensions
import ClassStub.Proofs.PayloadFormat
import ClassStub.Proofs.WalkOrder
import ClassStub.Proofs.FileStubbing
import ClassStub.Proofs.StackAccounting
import ClassStub.Proofs.PrintedCode
import ClassStub.Proofs.DeclaredExceptions
import ClassStub.Proofs.ReadingErrors
