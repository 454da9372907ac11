import Mutagenesis.Main
import Mutagenesis.Proofs.BuiltImage
import Mutagenesis.Proofs.CacheHistory
import Mutagenesis.Proofs.CachedSources
import Mutagenesis.Proofs.ContainerCopies
import Mutagenesis.Proofs.ContainerDiscipline
import Mutagenesis.Proofs.DiffsByFile
import Mutagenesis.Proofs.ExactPatches
import Mutagenesis.Proofs.HoleChoices
import Mutagenesis.Proofs.PrintedMutations
import Mutagenesis.Proofs.ReopenedRecords
import Mutagenesis.Proofs.Serving
import Mutagenesis.Proofs.UnfinishedCalls
import Mutagenesis.Proofs.WholeMutants
