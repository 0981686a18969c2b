import Pheromone.Common.Redundancy
import Pheromone.Common.Batching
import Pheromone.Common.Grouping
import Pheromone.Common.SetReruns
import Pheromone.Coordinator.Proofs.UnknownBuckets
import Pheromone.Scheduler.Proofs.ForwardedArgs
import Pheromone.Scheduler.Proofs.Isolation
import Pheromone.Kvs.Proofs.Refinement
import Pheromone.Scheduler.Proofs.Versions
import Pheromone.Scheduler.Proofs.DelayDeadline
import Pheromone.Scheduler.Proofs.RerunLoop
import Pheromone.Executor.Proofs.Slots
import Pheromone.Executor.Proofs.ObjectNames
import Pheromone.Executor.Proofs.LateAnswers
import Pheromone.Client.Registration
import Pheromone.Cluster.Proofs.SessionIdentity
import Pheromone.Cluster.Applications
import Pheromone.Cluster.Proofs.Dependencies
import Pheromone.Cluster.Proofs.Reachability
import Pheromone.Cluster.Proofs.ExactlyOnce
import Pheromone.Cluster.Proofs.Batches
import Pheromone.Cluster.Proofs.Quorums
import Pheromone.Cluster.Proofs.Groups
import Pheromone.Cluster.Proofs.UniqueNames
import Pheromone.Cluster.Proofs.TriggerArguments
import Pheromone.Cluster.Proofs.Rejections
import Pheromone.Cluster.Proofs.DeletionRange
import Pheromone.Cluster.Proofs.Reregistration
